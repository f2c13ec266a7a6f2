import LegacyImage.Proofs.ChunkSize.Spelling
import LegacyImage.Proofs.Document.Encodings
import LegacyImage.Proofs.Document.Failures
import LegacyImage.Proofs.Document.Remembering
import LegacyImage.Proofs.Layer.Concatenation
import LegacyImage.Proofs.Layer.Stored
import LegacyImage.Proofs.Manifest.Spellings
import LegacyImage.Proofs.Manifest.Truncation
import LegacyImage.Proofs.Reader.Accounting
import LegacyImage.Proofs.Session.Addressing
import LegacyImage.Proofs.Session.Lineage
import LegacyImage.Proofs.Session.PieceSizes
import LegacyImage.Proofs.Session.Placing
import LegacyImage.Proofs.Session.Slices
import LegacyImage.Proofs.Session.Snapshots
import LegacyImage.Proofs.Store.Location
import LegacyImage.Proofs.Stream.Completion
