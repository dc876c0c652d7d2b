import VideoFingerprint.Application.Machine
import VideoFingerprint.Proofs.Application.Disk
import VideoFingerprint.Proofs.Application.Steps

/-!
Hosts with files and an output. What such a host answers about its files depends on the files
alone; they change when a file is written, and the output when something is printed. Programs
and the log may change whatever else the host keeps. Of all that the application asks for, only
few steps are not silent: most leave the files and the output as they are.
-/

namespace VideoFingerprint

open Application

/-- The files and the output of a host, as parts of its state. -/
structure FileSystem {σ : Type} (host : Host (StateM σ)) (Files : Type) where
  files : σ → Files
  output : σ → String
  /-- What reading a path gives. -/
  content : Files → FilePath → Except String ByteArray
  isDirectory : Files → FilePath → Bool
  /-- What walking through a directory finds. -/
  below : Files → FilePath → List (Except String (List FilePath))
  readFile_run (path : FilePath) (x : σ) :
    (host.readFile path).run x = (content (files x) path, x)
  isDirectory_run (path : FilePath) (x : σ) :
    (host.isDirectory path).run x = (isDirectory (files x) path, x)
  filesBelow_run (root : FilePath) (x : σ) :
    (host.filesBelow root).run x = (below (files x) root, x)
  files_run (tool : Tool) (args : List FilePath) (x : σ) :
    files ((host.run tool args).run x).2 = files x
  output_run (tool : Tool) (args : List FilePath) (x : σ) :
    output ((host.run tool args).run x).2 = output x
  files_log (level : LogLevel) (text : String) (x : σ) :
    files ((host.log level text).run x).2 = files x
  output_log (level : LogLevel) (text : String) (x : σ) :
    output ((host.log level text).run x).2 = output x
  files_complain (text : String) (x : σ) : files ((host.complain text).run x).2 = files x
  output_complain (text : String) (x : σ) : output ((host.complain text).run x).2 = output x
  files_print (text : String) (x : σ) : files ((host.print text).run x).2 = files x
  /-- What is accepted by the output is added to it. -/
  output_print (text : String) (x : σ) (h : ((host.print text).run x).1 = .ok ()) :
    output ((host.print text).run x).2 = output x ++ text
  /-- A file whose writing is accepted has the text as its content. -/
  content_writeFile (path : FilePath) (text : String) (x : σ)
    (h : ((host.writeFile path text).run x).1 = .ok ()) :
    content (files ((host.writeFile path text).run x).2) path = .ok text.toUTF8
  output_writeFile (path : FilePath) (text : String) (x : σ) :
    output ((host.writeFile path text).run x).2 = output x

namespace FileSystem

variable {σ Files : Type} {host : Host (StateM σ)} {fs : FileSystem host Files}

def visible (fs : FileSystem host Files) (x : σ) : Files × String := (fs.files x, fs.output x)

/-- Two states with the same files and the same output. -/
def Agree (fs : FileSystem host Files) (x y : σ) : Prop := fs.visible y = fs.visible x

theorem Agree.refl (x : σ) : fs.Agree x x := rfl

theorem Agree.trans {x y z : σ} (h : fs.Agree x y) (h' : fs.Agree y z) : fs.Agree x z :=
  Eq.trans h' h

theorem Agree.output_eq {x y : σ} (h : fs.Agree x y) : fs.output y = fs.output x :=
  congrArg Prod.snd h

section Keeps

variable {α β γ ε : Type} {view : σ → γ}

/-- An action after which a part of the state is what it was before. -/
def Keeps (view : σ → γ) (a : StateM σ α) : Prop := ∀ x, view (a.run x).2 = view x

theorem keeps_pure (v : α) : Keeps view (pure v) := fun _ => rfl

theorem Keeps.bind {a : StateM σ α} {f : α → StateM σ β} (ha : Keeps view a)
    (hf : ∀ v, Keeps view (f v)) :
    Keeps view (a >>= f) :=
  fun x => (hf (a.run x).1 (a.run x).2).trans (ha x)

theorem Keeps.ask {a : StateM σ α} (ha : Keeps view a) : Keeps view (ask a).run :=
  ha.bind fun _ => keeps_pure _

theorem Keeps.mapM {l : List α} {f : α → StateM σ β} (hf : ∀ a, Keeps view (f a)) :
    Keeps view (l.mapM f) := by
  induction l with
  | nil => exact keeps_pure _
  | cons a l ih =>
      rw [List.mapM_cons]
      exact (hf a).bind fun b => ih.bind fun bs => keeps_pure _

abbrev Silent (fs : FileSystem host Files) (a : StateM σ α) : Prop := Keeps fs.visible a

theorem Keeps.files {a : StateM σ α} (h : fs.Silent a) : Keeps fs.files a :=
  fun x => congrArg Prod.fst (h x)

theorem Keeps.output {a : StateM σ α} (h : fs.Silent a) : Keeps fs.output a :=
  fun x => congrArg Prod.snd (h x)

end Keeps

/-! ### Silent steps -/

variable {α ε : Type} (s : Settings)

end FileSystem

/-! ### The machine in memory -/

end VideoFingerprint
