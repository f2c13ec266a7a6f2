import LegacyImage.Hash.Sha2
import LegacyImage.Text

/-!
Content addresses: the name of a hash function, a colon and the hash in hexadecimal. A digest is
held as the hash value itself, so that texts which differ in the case of their digits name the same
digest, and the text of a digest is always its lowercase form.
-/

namespace LegacyImage

/-- The hash functions that a digest may name. -/
inductive Algorithm
  | sha256
  | sha384
  | sha512
deriving DecidableEq, Repr

namespace Algorithm

def all : List Algorithm := [.sha256, .sha384, .sha512]

def name : Algorithm → Text
  | .sha256 => Text.ofString "sha256"
  | .sha384 => Text.ofString "sha384"
  | .sha512 => Text.ofString "sha512"

def size : Algorithm → Nat
  | .sha256 => 32
  | .sha384 => 48
  | .sha512 => 64

def hash : Algorithm → Bytes → Bytes
  | .sha256 => Hash.Sha2.sha256.hash
  | .sha384 => Hash.Sha2.sha384.hash
  | .sha512 => Hash.Sha2.sha512.hash

theorem length_hash (a : Algorithm) (data : Bytes) : (a.hash data).length = a.size := by
  cases a
  · exact Hash.Sha2.length_hash_sha256 data
  · exact Hash.Sha2.length_hash_sha384 data
  · exact Hash.Sha2.length_hash_sha512 data

def ofName? (t : Text) : Option Algorithm := all.find? fun a => a.name = t

theorem ofName?_name (a : Algorithm) : ofName? a.name = some a := by
  cases a <;> decide

theorem colon_not_mem_name (a : Algorithm) : (↑ ':' : CodePoint) ∉ a.name := by
  cases a <;> decide

end Algorithm

/-- A hash value and the function that made it. -/
structure Digest where
  algorithm : Algorithm
  value : Bytes
  length_value : value.length = algorithm.size
deriving DecidableEq

namespace Digest

/-- The hash value in lowercase hexadecimal. -/
def hex (d : Digest) : Text := Text.ofHexBytes d.value

def toText (d : Digest) : Text := d.algorithm.name ++ ↑ ':' :: d.hex

/-- Reads a digest: a known name up to the first colon, and after it exactly the hexadecimal digits
of a hash value of that function, in either case. -/
def parse? (t : Text) : Option Digest :=
  match t.dropWhile (· ≠ ↑ ':') with
  | [] => none
  | _ :: digits => do
    let algorithm ← Algorithm.ofName? (t.takeWhile (· ≠ ↑ ':'))
    let value ← Text.toHexBytes? digits
    if h : value.length = algorithm.size then some ⟨algorithm, value, h⟩ else none

def calculate (algorithm : Algorithm) (data : Bytes) : Digest :=
  ⟨algorithm, algorithm.hash data, algorithm.length_hash data⟩

/-- The digest by which content is addressed unless another function is asked for. -/
def ofBytes (data : Bytes) : Digest := calculate .sha256 data

theorem parse?_toText (d : Digest) : parse? d.toText = some d := by
  have h : ∀ c ∈ d.algorithm.name, (decide (c ≠ (↑ ':' : CodePoint))) = true := by
    intro c hc
    exact decide_eq_true fun e => d.algorithm.colon_not_mem_name (e ▸ hc)
  have hd : d.toText.dropWhile (· ≠ ↑ ':') = ↑ ':' :: d.hex := by
    rw [toText, List.dropWhile_append_of_pos h]
    rfl
  have ht : d.toText.takeWhile (· ≠ ↑ ':') = d.algorithm.name := by
    rw [toText, List.takeWhile_append_of_pos h]
    simp
  unfold parse?
  rw [hd, ht]
  simp [Algorithm.ofName?_name, hex, Text.toHexBytes?_ofHexBytes, d.length_value]

theorem toText_injective {d e : Digest} (h : d.toText = e.toText) : d = e := by
  have := congrArg parse? h
  simpa [parse?_toText] using this

end Digest

end LegacyImage
