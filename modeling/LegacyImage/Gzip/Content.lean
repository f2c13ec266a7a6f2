import LegacyImage.Gzip.Stage

/-!
What a gzip file holds, for a file that is there as a whole: what its members hold, one after the
other. Taking some bytes and then others is taking them all (`takeAll_append`).
-/

namespace LegacyImage.Gzip

/-- What the members before held, and the stage in the one at hand. -/
structure Progress where
  held : Bytes
  stage : Stage

namespace Progress

def start : Progress := ⟨[], .start⟩

/-- What a member held, once its trailer has been taken. -/
def released : Stage → Stage → Bytes
  | .trailer output _, .padding => output.toList
  | _, _ => []

def take (p : Progress) (b : UInt8) : Except Fault Progress :=
  match p.stage.step b with
  | .ok next => .ok ⟨p.held ++ released p.stage next, next⟩
  | .error fault => .error fault

def takeAll (p : Progress) (bs : Bytes) : Except Fault Progress := bs.foldlM take p

/-- What the file held, if it may end here. -/
def finish (p : Progress) : Except Fault Bytes :=
  match p.stage with
  | .start | .padding => .ok p.held
  | .magic first => .error (.notGzip [first])
  | _ => .error .truncated

@[simp] theorem takeAll_nil (p : Progress) : p.takeAll [] = .ok p := rfl

theorem takeAll_append (p : Progress) (a b : Bytes) :
    p.takeAll (a ++ b) = (p.takeAll a).bind (·.takeAll b) := List.foldlM_append

end Progress

def content (file : Bytes) : Except Fault Bytes := (Progress.start.takeAll file).bind (·.finish)

theorem content_nil : content [] = .ok [] := rfl

end LegacyImage.Gzip
