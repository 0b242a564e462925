import RoffDocBook.CommandLine.Run
import RoffDocBook.Proofs.Encoding.RoundTrip
import RoffDocBook.Proofs.FileTree

/-! The documents of a batch. The path of a document says nothing about the extension of its file, and nothing about
the directory where there is one for all documents; of the files with one path, only the last one keeps its
document. -/
namespace RoffDocBook

namespace CommandLine
open Text

namespace Session
variable {session : Session} {file : Text} {files : List Text}

/-- Files whose names differ only in what follows the last point have one path for their documents, where they are in
one directory or there is a directory for all documents. -/
theorem outputPath_eq_of_stem {other name otherName : Text} {outputDir : Option Text}
    (hname : Path.fileName? file = some name) (hother : Path.fileName? other = some otherName)
    (hstem : Path.stem name = Path.stem otherName)
    (hdirectory : outputDir = none → Path.directory? file = Path.directory? other) :
    outputPath file outputDir = outputPath other outputDir := by
  unfold outputPath
  rw [hname, hother, Option.map_some, Option.map_some, hstem]
  cases outputDir with
  | some directory => rfl
  | none =>
    unfold Path.beside
    rw [hname, hother, hdirectory rfl]

/-- Whether the conversion of a file leaves the files as they are. No converter that writes files is at work then. -/
def Undisturbed (session : Session) (file : Text) : Prop :=
  ∀ bytes, session.files.read file = .ok bytes → (session.convert file bytes).2.2.files = session.files

instance (session : Session) (file : Text) : Decidable (session.Undisturbed file) :=
  match hread : session.files.read file with
  | .ok bytes =>
    decidable_of_iff ((session.convert file bytes).2.2.files = session.files)
      ⟨fun h _ hother => Except.ok.inj (hread.symm.trans hother) ▸ h, fun h => h bytes hread⟩
  | .error _ => .isTrue fun _ hother => nomatch hread.symm.trans hother

/-- Whether every conversion of a batch leaves the files as they are. -/
def AllUndisturbed (session : Session) : List Text → Prop
  | [] => True
  | file :: rest => session.Undisturbed file ∧ (session.convertFile file).2.AllUndisturbed rest

instance decidableAllUndisturbed : ∀ (session : Session) (files : List Text), Decidable (session.AllUndisturbed files)
  | _, [] => .isTrue trivial
  | session, file :: rest =>
    have := decidableAllUndisturbed (session.convertFile file).2 rest
    inferInstanceAs (Decidable (session.Undisturbed file ∧ (session.convertFile file).2.AllUndisturbed rest))

end Session

end CommandLine

end RoffDocBook
