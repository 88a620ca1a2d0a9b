import Sao.Lib.Base64
import Sao.Lib.Text

/-!
# Blocks between marker lines

A reader of lines that collects what stands between a line `first` and the next line `last`. What
is outside such blocks is skipped, and a block without an end is none.

* `blocks_append` — lines without a `first` in front of a block.
* `blocks_of_first` — a block at the beginning.
-/

namespace Pem

variable (first last : Str)

/-- The bodies of the blocks in their order, from inside a block whose lines so far are given, or from
outside. -/
def blocksFrom : Option (List Str) → List Str → List (List Str)
  | _, [] => []
  | none, l :: ls => if l = first then blocksFrom (some []) ls else blocksFrom none ls
  | some body, l :: ls => if l = last then body :: blocksFrom none ls else blocksFrom (some (body ++ [l])) ls

def blocks (ls : List Str) : List (List Str) := blocksFrom first last none ls

instance (c : Char) : Decidable (Base64.IsBase64Char c) := inferInstanceAs (Decidable (_ ∨ _))

/-- A body decodes if it has base64 characters only. -/
def decodeBlock (decode : Str → Except Str Bytes) (body : List Str) : Except Str Bytes :=
  if body.flatten.all fun c => Base64.IsBase64Char c then decode body.flatten
  else .error "Invalid symbol".toList

theorem decodeBlock_of_base64 (decode : Str → Except Str Bytes) {body : List Str}
    (h : ∀ c ∈ body.flatten, Base64.IsBase64Char c) : decodeBlock decode body = decode body.flatten :=
  if_pos (List.all_eq_true.2 fun c hc => decide_eq_true (h c hc))

theorem decodeBlock_of_mem (decode : Str → Except Str Bytes) {body : List Str} {c : Char}
    (hc : c ∈ body.flatten) (h : ¬ Base64.IsBase64Char c) :
    decodeBlock decode body = .error "Invalid symbol".toList :=
  if_neg fun hall => h (of_decide_eq_true (List.all_eq_true.1 hall c hc))

variable {first last}

theorem blocks_append {pre : List Str} (h : first ∉ pre) (ls : List Str) :
    blocks first last (pre ++ ls) = blocks first last ls := by
  induction pre with
  | nil => rfl
  | cons l pre ih =>
    have hl : l ≠ first := fun he => h (by simp [he])
    rw [List.cons_append, blocks, blocksFrom, if_neg hl]
    exact ih fun hm => h (List.mem_cons_of_mem _ hm)

theorem blocksFrom_body {body : List Str} (h : last ∉ body) (acc ls : List Str) :
    blocksFrom first last (some acc) (body ++ last :: ls) = (acc ++ body) :: blocks first last ls := by
  induction body generalizing acc with
  | nil => rw [List.nil_append, blocksFrom, if_pos rfl, List.append_nil]; rfl
  | cons l body ih =>
    have hl : l ≠ last := fun he => h (by simp [he])
    rw [List.cons_append, blocksFrom, if_neg hl, ih fun hm => h (List.mem_cons_of_mem _ hm)]
    simp

/-- A block is read up to its end. -/
theorem blocks_of_first {body : List Str} (h : last ∉ body) (ls : List Str) :
    blocks first last (first :: (body ++ last :: ls)) = body :: blocks first last ls := by
  rw [blocks, blocksFrom, if_pos rfl, blocksFrom_body h, List.nil_append]

end Pem
