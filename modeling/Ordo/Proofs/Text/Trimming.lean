import Mathlib.Data.List.TakeWhile
import Ordo.Proofs.Text.Segments

namespace Ordo.Text

variable {p : Char → Bool} {cs : List Char} {c : Char} {s : String}

theorem of_mem_head?_dropWhile (h : c ∈ (cs.dropWhile p).head?) : p c = false := by
  have := List.head?_dropWhile_not p cs
  rw [Option.mem_def.mp h] at this
  exact this

theorem of_mem_getLast?_stripped (h : c ∈ (stripped p cs).getLast?) : p c = false := by
  rw [stripped, List.getLast?_reverse] at h
  exact of_mem_head?_dropWhile h

theorem stripped_prefix (p : Char → Bool) (cs : List Char) : stripped p cs <+: cs.dropWhile p := by
  rw [stripped, ← List.reverse_suffix, List.reverse_reverse]
  exact List.dropWhile_suffix p

theorem of_mem_head?_stripped (h : c ∈ (stripped p cs).head?) : p c = false := by
  obtain ⟨rest, hr⟩ := stripped_prefix p cs
  have hd : c ∈ (cs.dropWhile p).head? := by
    rw [← hr, List.head?_append, Option.mem_def.mp h]
    rfl
  exact of_mem_head?_dropWhile hd

theorem stripped_stripped (p : Char → Bool) (cs : List Char) :
    stripped p (stripped p cs) = stripped p cs :=
  stripped_eq_self (fun _ => of_mem_head?_stripped) (fun _ => of_mem_getLast?_stripped)

theorem all_dropWhile (p : Char → Bool) (cs : List Char) : (cs.dropWhile p).all p = cs.all p := by
  have h := congrArg (List.all · p) (List.takeWhile_append_dropWhile (p := p) (l := cs))
  simpa only [List.all_append, List.all_takeWhile, Bool.true_and] using h

theorem all_stripped (p : Char → Bool) (cs : List Char) : (stripped p cs).all p = cs.all p := by
  rw [stripped, List.all_reverse, all_dropWhile, List.all_reverse, all_dropWhile]

theorem isEmpty_trim (s : String) : (trim s).isEmpty = isAllBlank s := by
  have h : stripped isBlank s.toList = [] ↔ s.toList.all isBlank := by
    rw [stripped, List.reverse_eq_nil_iff, List.dropWhile_eq_nil_iff, ← List.all_eq_true,
      List.all_reverse, all_dropWhile]
  rw [Bool.eq_iff_iff, String.isEmpty_iff, trim, ← String.toList_eq_nil_iff, String.toList_ofList,
    h, isAllBlank]

theorem trim_trim (s : String) : trim (trim s) = trim s := by
  rw [trim, trim, String.toList_ofList, stripped_stripped]

theorem isAllBlank_trim (s : String) : isAllBlank (trim s) = isAllBlank s := by
  rw [isAllBlank, trim, String.toList_ofList, all_stripped, isAllBlank]

-- A text without blanks is trimmed.
theorem trim_eq_self (h : ∀ c ∈ s.toList, isBlank c = false) : trim s = s := by
  rw [trim, stripped_eq_self, String.ofList_toList]
  case hf => exact fun c hc => h c (List.mem_of_mem_head? hc)
  case hl => exact fun c hc => h c (List.mem_of_mem_getLast? hc)

end Ordo.Text
