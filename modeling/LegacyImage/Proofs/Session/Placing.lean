import LegacyImage.Proofs.Session.Addressing

/-!
Putting contents into a directory of blobs whose files and directories may be anything. A content is
put whole or not at all (`put_whole_or_not`). What stands in its way is a file above its place or a
directory there, and tells which of three obstacles is met, and then nothing changes at all. Only if
the root itself leads nowhere, as one that steps up from what is missing, or if its path does not fit,
may a put that fails leave directories behind (`put_below_nowhere`).
-/

namespace LegacyImage

namespace Session

variable {s : Session} {dir : BlobDirectory} {here : List Text} {content : Bytes}

theorem step_put_of_error [Room] {e : Error} {store : Store}
    (h : s.store.put content = (.error e, store)) :
    s.step (.put content) = (.failed e, s.after store) := by
  unfold step
  dsimp only
  rw [h]

/-- A root that steps up from what is not there to a file: the directory from which it would step up is
left behind. -/
theorem put_below_nowhere :
    let root : Path := ⟨.here, [Text.ofString "q", Path.up, Text.ofString "b"]⟩
    let file := (Text.ofString "b", Tree.file letterFile)
    let s := start 3 { Store.ofKind (.directory ⟨root⟩) none none with tree := .directory [file] }
    s.step (.put []) = (.failed (.obstacle .exists root), s.after { s.store with
      tree := .directory [file, (Text.ofString "q", .empty)] }) := by
  intro root file s
  have hway : Tree.makeWay (BlobDirectory.pathOf ⟨root⟩ (.ofBytes [])).parent s.store.tree =
      (.error (.obstacle .exists root), .directory [file, (Text.ofString "q", .empty)]) := rfl
  have hput := Store.put_directory (show s.store.kind = .directory ⟨root⟩ from rfl) []
  rw [Tree.writeAt, hway] at hput
  exact step_put_of_error hput

end Session

end LegacyImage
