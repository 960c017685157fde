import Mathlib.Data.List.TakeWhile
set_option autoImplicit false

/-! C strings in buffers of a fixed size, and the copy that is bounded by one. -/

namespace CString

def nul : Char := '\x00'

/-- The text in front of the first NUL. `none` is a buffer without one. -/
def stringOf (buf : List Char) : Option (List Char) :=
  if nul ∈ buf then some (buf.takeWhile fun c => c ≠ nul) else none

/-- `strncpy(dst, src, n)`: from the end of `src` on it is the NUL that is written again.
`none` is a byte read or written outside the two buffers. -/
def strncpy : Nat → List Char → List Char → Option (List Char)
  | 0, dst, _ => some dst
  | _ + 1, [], _ => none
  | _ + 1, _ :: _, [] => none
  | n + 1, _ :: dst, c :: src =>
    (strncpy n dst (if c = nul then c :: src else src)).map (c :: ·)

theorem stringOf_nul (rest : List Char) : stringOf (nul :: rest) = some [] := by
  simp [stringOf]

theorem stringOf_append {s : List Char} (hs : nul ∉ s) (tail : List Char) :
    stringOf (s ++ tail) = (stringOf tail).map (s ++ ·) := by
  have hpos : ∀ c ∈ s, decide (c ≠ nul) = true :=
    fun c hc => decide_eq_true fun heq => hs (heq ▸ hc)
  unfold stringOf
  rw [List.takeWhile_append_of_pos hpos]
  by_cases htail : nul ∈ tail
  · simp [htail]
  · simp [hs,htail]

theorem stringOf_eq_some_iff {buf s : List Char} :
    stringOf buf = some s ↔ nul ∉ s ∧ ∃ rest, buf = s ++ nul :: rest := by
  constructor
  · intro h
    unfold stringOf at h
    split at h
    · rename_i hmem
      obtain rfl := Option.some.inj h
      refine ⟨fun hbad => by simpa using List.mem_takeWhile_imp hbad,?_⟩
      have hsplit := List.takeWhile_append_dropWhile (p := fun c => decide (c ≠ nul)) (l := buf)
      cases hdrop : buf.dropWhile (fun c => decide (c ≠ nul)) with
      | nil =>
        have hall := List.dropWhile_eq_nil_iff.mp hdrop nul hmem
        simp at hall
      | cons c rest =>
        have hhead := List.head?_dropWhile_not (fun c => decide (c ≠ nul)) buf
        rw [hdrop] at hhead hsplit
        have hc : c = nul := by simpa using hhead
        exact ⟨rest,by rw [hc] at hsplit; exact hsplit.symm⟩
    · simp at h
  · rintro ⟨hs,rest,rfl⟩
    rw [stringOf_append hs,stringOf_nul]
    simp

theorem strncpy_length {n : Nat} {dst src out : List Char} (h : strncpy n dst src = some out) :
    n ≤ dst.length ∧ out.length = dst.length := by
  induction n generalizing dst src out with
  | zero => simp_all [strncpy]
  | succ n ih =>
    cases dst with
    | nil => simp [strncpy] at h
    | cons d dst =>
      cases src with
      | nil => simp [strncpy] at h
      | cons c src =>
        rw [strncpy,Option.map_eq_some_iff] at h
        obtain ⟨out,hout,rfl⟩ := h
        have hlen := ih hout
        simp only [List.length_cons]
        omega

theorem strncpy_text {n : Nat} {dst s : List Char} (hn : n ≤ dst.length) (hs : nul ∉ s)
    (rest : List Char) : strncpy n dst (s ++ nul :: rest) =
      some (s.take n ++ (List.replicate (n - s.length) nul ++ dst.drop n)) := by
  induction n generalizing dst s with
  | zero => simp [strncpy]
  | succ n ih =>
    cases dst with
    | nil => simp at hn
    | cons d dst =>
      rw [List.length_cons] at hn
      cases s with
      | nil =>
        have hrest := ih (s := []) (by omega : n ≤ dst.length) (by simp)
        rw [List.nil_append] at hrest
        rw [List.nil_append,strncpy,if_pos rfl,hrest]
        simp [List.replicate_succ]
      | cons c s =>
        rw [List.mem_cons,not_or] at hs
        rw [List.cons_append,strncpy,if_neg (Ne.symm hs.1),ih (by omega) hs.2]
        simp

theorem stringOf_strncpy_short {n : Nat} {dst s out rest : List Char} (hs : nul ∉ s)
    (hshort : s.length < n) (h : strncpy n dst (s ++ nul :: rest) = some out) :
    stringOf out = some s := by
  rw [strncpy_text (strncpy_length h).1 hs] at h
  obtain rfl := Option.some.inj h
  obtain ⟨k,hk⟩ : ∃ k, n - s.length = k + 1 := ⟨n - s.length - 1,by omega⟩
  rw [List.take_of_length_le (by omega),hk,List.replicate_succ,List.cons_append]
  exact stringOf_eq_some_iff.mpr ⟨hs,_,rfl⟩

theorem stringOf_strncpy_long {n : Nat} {dst s out rest : List Char} (hs : nul ∉ s)
    (hlong : n ≤ s.length) (h : strncpy n dst (s ++ nul :: rest) = some out) :
    stringOf out = (stringOf (dst.drop n)).map (s.take n ++ ·) := by
  rw [strncpy_text (strncpy_length h).1 hs] at h
  obtain rfl := Option.some.inj h
  rw [Nat.sub_eq_zero_of_le hlong,List.replicate_zero,List.nil_append]
  exact stringOf_append (fun hbad => hs (List.mem_of_mem_take hbad)) _

end CString
