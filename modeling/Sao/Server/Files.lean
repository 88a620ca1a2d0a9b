import Sao.Core.Error
import Sao.Lib.Prog

/-!
# The files of a server, and what its commands do to them

| here | there |
| --- | --- |
| `Path`                     | `std::path::Path`, by its components |
| `Op.pathExists`            | `path.exists()`, which is also `false` where the path cannot be looked at |
| `Op.createDirAll`          | `std::fs::create_dir_all` |
| `Op.readToString`, `Op.open` | `std::fs::read_to_string`, `File::open` and reading it to its end |
| `Op.write`                 | `std::fs::write`: it truncates the file, and then writes it |
| `Op.generate`              | `rcgen::generate_simple_self_signed`: the PEM texts of a certificate and its key |
| `Op.announce`              | the fingerprint line on stderr and in the log |

* `World.answer` — which answers the files allow. Everything but `exists` may fail; a write that fails
  leaves the file as it was or a beginning of the new text.
* `serve` — the answers of files with which nothing fails.
-/

namespace Sao.Setup

open Prog

/-! ## Paths -/

structure Path where
  absolute : Bool
  parts : List Str
deriving DecidableEq, Repr

namespace Path

/-- `None` for a root and for the empty path. -/
def parent (p : Path) : Option Path := if p.parts = [] then none else some { p with parts := p.parts.dropLast }

def join (p : Path) (name : Str) : Path := { p with parts := p.parts ++ [name] }

/-- `as_os_str().is_empty()` -/
def isEmpty (p : Path) : Bool := !p.absolute && p.parts.isEmpty

/-- `display()` and `to_string_lossy()` -/
def display (p : Path) : Str :=
  (if p.absolute then ['/'] else []) ++ List.intercalate ['/'] p.parts

end Path

/-! ## Operations -/

inductive Op where
  | pathExists (p : Path)
  | createDirAll (p : Path)
  | readToString (p : Path)
  | open (p : Path)
  | write (p : Path) (body : Bytes)
  | generate
  | announce (fp : Str)
deriving DecidableEq

/-- A failed write says how many bytes it has written, if it has truncated the file. -/
abbrev Op.Reply : Op → Type
  | .pathExists _ => Bool
  | .createDirAll _ => Except Str Unit
  | .readToString _ => Except Str Str
  | .open _ => Except Str Bytes
  | .write _ _ => Except (Str × Option Nat) Unit
  | .generate => Except Str (Str × Str)
  | .announce _ => Unit

abbrev Trace := List (Event Op.Reply)

/-! ## Files -/

abbrev Files := Path → Option Bytes

/-- The files, and the fingerprints a command has announced. -/
structure World where
  files : Files
  said : List Str

namespace World

def put (w : World) (p : Path) (body : Bytes) : World := { w with files := Function.update w.files p (some body) }

def say (w : World) (fp : Str) : World := { w with said := w.said ++ [fp] }

@[simp] theorem put_files (w : World) (p : Path) (body : Bytes) :
    (w.put p body).files = Function.update w.files p (some body) := rfl

@[simp] theorem put_said (w : World) (p : Path) (body : Bytes) : (w.put p body).said = w.said := rfl

@[simp] theorem say_files (w : World) (fp : Str) : (w.say fp).files = w.files := rfl

@[simp] theorem say_said (w : World) (fp : Str) : (w.say fp).said = w.said ++ [fp] := rfl

/-- What an operation does when it is answered so, if the files allow the answer. -/
def answer : Event Op.Reply → World → Option World
  | ⟨.pathExists p, found⟩, w => if found = true ∧ w.files p = none then none else some w
  | ⟨.createDirAll _, _⟩, w => some w
  | ⟨.readToString p, .ok s⟩, w => if w.files p = some (Bytes.utf8 s) then some w else none
  | ⟨.readToString _, .error _⟩, w => some w
  | ⟨.open p, .ok b⟩, w => if w.files p = some b then some w else none
  | ⟨.open _, .error _⟩, w => some w
  | ⟨.write p body, .ok ()⟩, w => some (w.put p body)
  | ⟨.write p body, .error (_, some n)⟩, w => some (w.put p (body.take n))
  | ⟨.write _ _, .error (_, none)⟩, w => some w
  | ⟨.generate, _⟩, w => some w
  | ⟨.announce fp, _⟩, w => some (w.say fp)

end World

/-- No test for a file misses one that is there. -/
def Accurate (w : World) : Event Op.Reply → Prop
  | ⟨.pathExists p, found⟩ => (w.files p).isSome → found = true
  | _ => True

/-- The answers where nothing fails, and `generate` returns `pair`. -/
def serve (pair : Str × Str) : (op : Op) → World → World × op.Reply
  | .pathExists p, w => (w, (w.files p).isSome)
  | .createDirAll _, w => (w, .ok ())
  | .readToString p, w =>
    (w, match w.files p with
      | none => .error "No such file or directory (os error 2)".toList
      | some b =>
        match Bytes.fromUtf8 b with
        | none => .error "stream did not contain valid UTF-8".toList
        | some s => .ok s)
  | .open p, w =>
    (w, match w.files p with
      | none => .error "No such file or directory (os error 2)".toList
      | some b => .ok b)
  | .write p body, w => (w.put p body, .ok ())
  | .generate, w => (w, .ok pair)
  | .announce fp, w => (w.say fp, ())

/-- The files allow these answers, and no test misses a file. -/
theorem answer_serve (pair : Str × Str) (op : Op) (w : World) :
    World.answer ⟨op, (serve pair op w).2⟩ w = some (serve pair op w).1 ∧ Accurate w ⟨op, (serve pair op w).2⟩ := by
  cases op with
  | pathExists p =>
    refine ⟨if_neg fun h => ?_, id⟩
    rw [serve, h.2] at h
    exact absurd h.1 (by simp)
  | readToString p =>
    refine ⟨?_, trivial⟩
    simp only [serve]
    cases hp : w.files p with
    | none => rfl
    | some b =>
      cases hb : Bytes.fromUtf8 b with
      | none => simp only [hb, World.answer]
      | some s =>
        simp only [hb, World.answer]
        exact if_pos (by rw [hp, Bytes.fromUtf8_some hb])
  | «open» p =>
    refine ⟨?_, trivial⟩
    simp only [serve]
    cases hp : w.files p with
    | none => rfl
    | some b => exact if_pos hp
  | createDirAll p => exact ⟨rfl, trivial⟩
  | write p body => exact ⟨rfl, trivial⟩
  | generate => exact ⟨rfl, trivial⟩
  | announce fp => exact ⟨rfl, trivial⟩

/-! ## Calls -/

/-- A program that performs such operations. -/
abbrev Interact := Prog Op Op.Reply CoreError

def pathExists (p : Path) : Interact Bool := perform (.pathExists p) .ok

def createDirAll (p : Path) : Interact Unit := perform (.createDirAll p) fun r => r.mapError .io

def readToString (p : Path) : Interact Str := perform (.readToString p) fun r => r.mapError .io

def openFile (p : Path) : Interact Bytes := perform (.open p) fun r => r.mapError .io

def write (p : Path) (body : Bytes) : Interact Unit := perform (.write p body) fun r => r.mapError fun e => .io e.1

/-- `rcgen`'s error becomes an `io::Error`. -/
def generate : Interact (Str × Str) := perform .generate fun r => r.mapError .io

def announce (fp : Str) : Interact Unit := perform (.announce fp) .ok

/-- `if let Some(p) = path.parent() { create_dir_all(p)?; }` -/
def createParent (path : Path) : Interact Unit :=
  match path.parent with
  | some p => createDirAll p
  | none => pure ()

/-- The same, but for a file in the working directory there is nothing to create. -/
def createNonemptyParent (path : Path) : Interact Unit :=
  match path.parent with
  | some p => if p.isEmpty then pure () else createDirAll p
  | none => pure ()

end Sao.Setup
