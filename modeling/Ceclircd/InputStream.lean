import Mathlib.Data.List.TakeWhile
import Mathlib.Algebra.Order.Group.Nat
set_option autoImplicit false

/-! Formatted input from a character stream with its `eofbit` and `failbit`, in the C
locale with default format flags and width 0. -/

namespace InputStream

structure IStream where
  rest : List Char
  eof : Bool
  fail : Bool
  deriving DecidableEq, Repr

inductive Sign where
  | none
  | plus
  | minus
  deriving DecidableEq, Repr

def Sign.text : Sign → List Char
  | .none => []
  | .plus => ['+']
  | .minus => ['-']

/-- What an integer extraction accepts: an optional sign and a digit or more. -/
structure Numeral where
  sign : Sign
  digits : List Char
  nonempty : digits ≠ []
  isDigit : ∀ d ∈ digits, d.isDigit = true
  deriving DecidableEq, Repr

def isSpace (c : Char) : Bool := c = ' ' ∨ '\t' ≤ c ∧ c ≤ '\r'

/-- What a string extraction yields: a character or more, and no whitespace. -/
structure Token where
  text : List Char
  nonempty : text ≠ []
  noSpace : ∀ c ∈ text, isSpace c = false

def Numeral.text (n : Numeral) : List Char := n.sign.text ++ n.digits

def Numeral.magnitude (n : Numeral) : Nat := Nat.ofDigitChars 10 n.digits 0

def Numeral.value (n : Numeral) : Int :=
  if n.sign = .minus then -n.magnitude else n.magnitude

/-- The numeral in an unsigned type with `size` values: a minus sign wraps. -/
def Numeral.wrapped (n : Numeral) (size : Nat) : Nat :=
  if n.sign = .minus then (size - n.magnitude) % size else n.magnitude

def Numeral.ofNat (m : Nat) : Numeral :=
  ⟨.none,Nat.toDigits 10 m,Nat.toDigits_ne_nil,
    fun _ => Nat.isDigit_of_mem_toDigits (by decide : 0 < 10) (by decide)⟩

theorem Numeral.value_ofNat (m : Nat) : (Numeral.ofNat m).value = m := by
  simp [Numeral.value,Numeral.magnitude,Numeral.ofNat]

def Sign.scan : List Char → Sign × List Char
  | '-' :: cs => (.minus,cs)
  | '+' :: cs => (.plus,cs)
  | cs => (.none,cs)

def Numeral.scanDigits (sign : Sign) (cs : List Char) : Option Numeral × List Char :=
  if h : cs.takeWhile Char.isDigit = [] then (none,cs)
  else (some ⟨sign,cs.takeWhile Char.isDigit,h,fun _ => List.mem_takeWhile_imp⟩,
    cs.dropWhile Char.isDigit)

/-- The longest numeral in front, and what is left behind it. A sign without digits
is consumed. -/
def Numeral.scan (cs : List Char) : Option Numeral × List Char :=
  Numeral.scanDigits (Sign.scan cs).1 (Sign.scan cs).2

def StartsNoDigit (cs : List Char) : Prop := ∀ c ∈ cs.head?, c.isDigit = false

theorem startsNoDigit_nil : StartsNoDigit [] := by simp [StartsNoDigit]

theorem startsNoDigit_cons {c : Char} {cs : List Char} (h : c.isDigit = false) :
    StartsNoDigit (c :: cs) := by simpa [StartsNoDigit] using h

theorem takeWhile_digits {digits rest : List Char} (hd : ∀ d ∈ digits, d.isDigit = true)
    (hr : StartsNoDigit rest) : (digits ++ rest).takeWhile Char.isDigit = digits := by
  rw [List.takeWhile_append_of_pos hd]
  cases rest with
  | nil => simp
  | cons c cs => simp [hr c (by simp)]

theorem dropWhile_digits {digits rest : List Char} (hd : ∀ d ∈ digits, d.isDigit = true)
    (hr : StartsNoDigit rest) : (digits ++ rest).dropWhile Char.isDigit = rest := by
  rw [List.dropWhile_append_of_pos hd]
  cases rest with
  | nil => simp
  | cons c cs => simp [hr c (by simp)]

theorem startsNoDigit_dropWhile (cs : List Char) :
    StartsNoDigit (cs.dropWhile Char.isDigit) := by
  intro c hc
  have hnot := List.head?_dropWhile_not Char.isDigit cs
  rw [Option.mem_def.mp hc] at hnot
  simpa using hnot

theorem Sign.scan_text (cs : List Char) : (Sign.scan cs).1.text ++ (Sign.scan cs).2 = cs := by
  unfold Sign.scan
  split <;> rfl

theorem Sign.scan_append (sign : Sign) {d : Char} {cs : List Char} (hd : d.isDigit = true) :
    Sign.scan (sign.text ++ d :: cs) = (sign,d :: cs) := by
  have hminus : d ≠ '-' := by rintro rfl; simp at hd
  have hplus : d ≠ '+' := by rintro rfl; simp at hd
  cases sign with
  | none =>
    simp only [Sign.text,List.nil_append]
    unfold Sign.scan
    split <;> simp_all
  | plus => rfl
  | minus => rfl

theorem Numeral.scan_append (n : Numeral) {rest : List Char} (hr : StartsNoDigit rest) :
    Numeral.scan (n.text ++ rest) = (some n,rest) := by
  obtain ⟨sign,digits,hne,hdigit⟩ := n
  obtain ⟨d,ds,rfl⟩ := List.exists_cons_of_ne_nil hne
  have hsign : Sign.scan (Numeral.text ⟨sign,d :: ds,hne,hdigit⟩ ++ rest) =
      (sign,d :: ds ++ rest) := by
    rw [Numeral.text,List.append_assoc,List.cons_append]
    exact Sign.scan_append sign (hdigit d (by simp))
  rw [Numeral.scan,hsign,Numeral.scanDigits]
  simp only [takeWhile_digits hdigit hr,dropWhile_digits hdigit hr]
  rw [dif_neg hne]

theorem Numeral.append_unique {n m : Numeral} {rest tail : List Char} (hr : StartsNoDigit rest)
    (ht : StartsNoDigit tail) (h : n.text ++ rest = m.text ++ tail) : n = m ∧ rest = tail := by
  have hscan := n.scan_append hr
  rw [h,m.scan_append ht] at hscan
  obtain ⟨hm,hrest⟩ := Prod.mk.inj hscan
  exact ⟨(Option.some.inj hm).symm,hrest.symm⟩

theorem Numeral.eq_of_scan {cs rest : List Char} {n : Numeral}
    (h : Numeral.scan cs = (some n,rest)) : cs = n.text ++ rest ∧ StartsNoDigit rest := by
  unfold Numeral.scan Numeral.scanDigits at h
  split at h
  · simp at h
  · obtain ⟨hn,rfl⟩ := Prod.mk.inj h
    obtain rfl := Option.some.inj hn
    refine ⟨?_,startsNoDigit_dropWhile _⟩
    rw [Numeral.text,List.append_assoc,List.takeWhile_append_dropWhile,Sign.scan_text]

theorem isSpace_of_isDigit {c : Char} (h : c.isDigit = true) : isSpace c = false := by
  simp only [Char.isDigit,Bool.and_eq_true,decide_eq_true_eq] at h
  simp only [isSpace,decide_eq_false_iff_not,not_or,not_and]
  constructor
  · rintro rfl
    exact absurd h.1 (by decide)
  · intro _ hr
    exact absurd (Char.le_trans h.1 hr) (by decide)

theorem Numeral.noSpace (n : Numeral) : ∀ c ∈ n.text, isSpace c = false := by
  intro c hc
  rcases List.mem_append.mp hc with hsign | hdigit
  · cases hs : n.sign with
    | none => simp [hs,Sign.text] at hsign
    | plus =>
      rw [hs,Sign.text,List.mem_singleton] at hsign
      subst hsign
      decide
    | minus =>
      rw [hs,Sign.text,List.mem_singleton] at hsign
      subst hsign
      decide
  · exact isSpace_of_isDigit (n.isDigit c hdigit)

namespace IStream

def ofChars (cs : List Char) : IStream := ⟨cs,false,false⟩

def good (s : IStream) : Bool := !s.eof && !s.fail

def setFail (s : IStream) : IStream := { s with fail := true }

def sentry (s : IStream) : IStream × Bool :=
  if s.good then
    match s.rest.dropWhile isSpace with
    | [] => (⟨[],true,true⟩,false)
    | c :: cs => ({ s with rest := c :: cs },true)
  else (s.setFail,false)

def extractString (s : IStream) : IStream × List Char :=
  let (s,ok) := s.sentry
  if ok then
    let rest := s.rest.dropWhile fun c => !isSpace c
    (⟨rest,rest.isEmpty,s.fail⟩,s.rest.takeWhile fun c => !isSpace c)
  else (s,[])

/-- `none` where the extraction leaves the variable as it was. -/
def extractChar (s : IStream) : IStream × Option Char :=
  let (s,ok) := s.sentry
  match ok,s.rest with
  | true,c :: cs => ({ s with rest := cs },some c)
  | _,_ => (s,none)

/-- Extraction into a signed type with values from `lo` to `hi`. -/
def extractInt (lo hi : Int) (s : IStream) : IStream × Option Int :=
  let (s,ok) := s.sentry
  if ok then
    let p := Numeral.scan s.rest
    let s := ⟨p.2,p.2.isEmpty,s.fail⟩
    match p.1 with
    | none => (s.setFail,some 0)
    | some n =>
      if n.value < lo then (s.setFail,some lo)
      else if hi < n.value then (s.setFail,some hi)
      else (s,some n.value)
  else (s,none)

/-- Extraction into an unsigned type with values below `size`. A minus sign wraps. -/
def extractUnsigned (size : Nat) (s : IStream) : IStream × Option Nat :=
  let (s,ok) := s.sentry
  if ok then
    let p := Numeral.scan s.rest
    let s := ⟨p.2,p.2.isEmpty,s.fail⟩
    match p.1 with
    | none => (s.setFail,some 0)
    | some n =>
      if size ≤ n.magnitude then (s.setFail,some (size - 1))
      else if n.sign = .minus then (s,some ((size - n.magnitude) % size))
      else (s,some n.magnitude)
  else (s,none)

/-- `none` is `EOF`. -/
def peek (s : IStream) : IStream × Option Char :=
  if s.good then
    match s.rest with
    | [] => ({ s with eof := true },none)
    | c :: cs => (⟨c :: cs,s.eof,s.fail⟩,some c)
  else (s.setFail,none)

def ignore (s : IStream) : IStream :=
  if s.good then
    match s.rest with
    | [] => { s with eof := true }
    | _ :: cs => { s with rest := cs }
  else s.setFail

/-- A stream after an extraction that stopped in front of `cs`. -/
def stoppedAt (cs : List Char) : IStream := ⟨cs,cs.isEmpty,false⟩

theorem sentry_nil : sentry (ofChars []) = (⟨[],true,true⟩,false) := rfl

theorem sentry_cons {c : Char} (cs : List Char) (hc : isSpace c = false) :
    sentry (ofChars (c :: cs)) = (ofChars (c :: cs),true) := by
  simp [sentry,ofChars,good,hc]

theorem sentry_skips {ws : List Char} (hws : ∀ c ∈ ws, isSpace c = true) (cs : List Char) :
    sentry (ofChars (ws ++ cs)) = sentry (ofChars cs) := by
  simp [sentry,ofChars,good,List.dropWhile_append_of_pos hws]

theorem extractString_token {ws after : List Char} (hws : ∀ c ∈ ws, isSpace c = true)
    (t : Token) (ha : ∀ c ∈ after.head?, isSpace c = true) :
    extractString (ofChars (ws ++ (t.text ++ after))) = (stoppedAt after,t.text) := by
  obtain ⟨text,hne,hspace⟩ := t
  obtain ⟨c,cs,rfl⟩ := List.exists_cons_of_ne_nil hne
  have hpos : ∀ x ∈ c :: cs, (!isSpace x) = true := by simpa using hspace
  have htake : ((c :: cs) ++ after).takeWhile (fun x => !isSpace x) = c :: cs := by
    rw [List.takeWhile_append_of_pos hpos]
    cases after with
    | nil => simp
    | cons a as => simp [ha a (by simp)]
  have hdrop : ((c :: cs) ++ after).dropWhile (fun x => !isSpace x) = after := by
    rw [List.dropWhile_append_of_pos hpos]
    cases after with
    | nil => simp
    | cons a as => simp [ha a (by simp)]
  have hsentry := sentry_cons (cs ++ after) (hspace c (by simp))
  rw [extractString,sentry_skips hws]
  dsimp only
  rw [List.cons_append,hsentry,← List.cons_append]
  simp only [ofChars,if_true,htake,hdrop,stoppedAt]

theorem sentry_numeral (n : Numeral) (rest : List Char) :
    sentry (ofChars (n.text ++ rest)) = (ofChars (n.text ++ rest),true) := by
  obtain ⟨c,cs,htext⟩ : ∃ c cs, n.text = c :: cs :=
    List.exists_cons_of_ne_nil (by simp [Numeral.text,n.nonempty])
  rw [htext]
  exact sentry_cons _ (n.noSpace c (by rw [htext]; simp))

theorem extractInt_numeral {lo hi : Int} {n : Numeral} {rest : List Char}
    (hr : StartsNoDigit rest) (hlo : lo ≤ n.value) (hhi : n.value ≤ hi) :
    extractInt lo hi (ofChars (n.text ++ rest)) = (stoppedAt rest,some n.value) := by
  rw [extractInt,sentry_numeral]
  simp only [ofChars,n.scan_append hr,if_true]
  rw [if_neg (by omega),if_neg (by omega)]
  rfl

theorem exists_of_extractInt {lo hi : Int} {cs : List Char}
    (hcs : ∀ c ∈ cs, isSpace c = false)
    (h : (extractInt lo hi (ofChars cs)).1.fail = false) :
    ∃ (n : Numeral) (rest : List Char), cs = n.text ++ rest ∧ StartsNoDigit rest ∧
      lo ≤ n.value ∧ n.value ≤ hi := by
  cases cs with
  | nil => simp [extractInt,sentry_nil] at h
  | cons c cs =>
    rw [extractInt,sentry_cons cs (hcs c (by simp))] at h
    simp only [ofChars,if_true] at h
    rcases hscan : Numeral.scan (c :: cs) with ⟨found,rest⟩
    rw [hscan] at h
    cases found with
    | none => simp [setFail] at h
    | some n =>
      obtain ⟨heq,hr⟩ := Numeral.eq_of_scan hscan
      dsimp only at h
      split at h
      · simp [setFail] at h
      · split at h
        · simp [setFail] at h
        · exact ⟨n,rest,heq,hr,by omega,by omega⟩

theorem extractChar_cons {c : Char} (cs : List Char) (hc : isSpace c = false) :
    extractChar (ofChars (c :: cs)) = (ofChars cs,some c) := by
  rw [extractChar,sentry_cons cs hc]
  rfl

theorem extractUnsigned_numeral {size : Nat} {n : Numeral} {rest : List Char}
    (hr : StartsNoDigit rest) (hn : n.magnitude < size) :
    extractUnsigned size (ofChars (n.text ++ rest)) = (stoppedAt rest,some (n.wrapped size)) := by
  rw [extractUnsigned,sentry_numeral]
  simp only [ofChars,n.scan_append hr,if_true]
  rw [if_neg (by omega),Numeral.wrapped]
  split <;> rfl

theorem exists_of_extractUnsigned {size : Nat} {cs : List Char}
    (hcs : ∀ c ∈ cs, isSpace c = false)
    (h : (extractUnsigned size (ofChars cs)).1.fail = false) :
    ∃ (n : Numeral) (rest : List Char), cs = n.text ++ rest ∧ StartsNoDigit rest ∧
      n.magnitude < size := by
  cases cs with
  | nil => simp [extractUnsigned,sentry_nil] at h
  | cons c cs =>
    rw [extractUnsigned,sentry_cons cs (hcs c (by simp))] at h
    simp only [ofChars,if_true] at h
    rcases hscan : Numeral.scan (c :: cs) with ⟨found,rest⟩
    rw [hscan] at h
    cases found with
    | none => simp [setFail] at h
    | some n =>
      obtain ⟨heq,hr⟩ := Numeral.eq_of_scan hscan
      dsimp only at h
      split at h
      · simp [setFail] at h
      · exact ⟨n,rest,heq,hr,by omega⟩

theorem extractUnsigned_tooLarge {size : Nat} {n : Numeral} {rest : List Char}
    (hr : StartsNoDigit rest) (hn : size ≤ n.magnitude) :
    (extractUnsigned size (ofChars (n.text ++ rest))).2 = some (size - 1) := by
  rw [extractUnsigned,sentry_numeral]
  simp only [ofChars,n.scan_append hr,if_true]
  rw [if_pos hn]

theorem extractUnsigned_noNumeral (size : Nat) {c : Char} {cs : List Char}
    (hc : isSpace c = false)
    (h : ∀ (n : Numeral) (rest : List Char), StartsNoDigit rest → c :: cs ≠ n.text ++ rest) :
    (extractUnsigned size (ofChars (c :: cs))).2 = some 0 := by
  have hscan : (Numeral.scan (c :: cs)).1 = none := by
    rcases hfound : Numeral.scan (c :: cs) with ⟨found,rest⟩
    cases found with
    | none => rfl
    | some n =>
      obtain ⟨heq,hr⟩ := Numeral.eq_of_scan hfound
      exact absurd heq (h n rest hr)
  rw [extractUnsigned,sentry_cons cs hc]
  simp only [ofChars,if_true,hscan]

theorem extractString_noSpace (s : IStream) : ∀ c ∈ (extractString s).2, isSpace c = false := by
  intro c hc
  unfold extractString at hc
  dsimp only at hc
  split at hc
  · simpa using List.mem_takeWhile_imp hc
  · simp at hc

theorem sentry_ok {s : IStream} (h : (sentry s).2 = true) : (sentry s).1.fail = false := by
  unfold sentry at h ⊢
  by_cases hgood : s.good = true
  · have hfail : s.fail = false := by
      simp only [good,Bool.and_eq_true,Bool.not_eq_true'] at hgood
      exact hgood.2
    rw [if_pos hgood] at h ⊢
    cases hrest : s.rest.dropWhile isSpace with
    | nil => simp [hrest] at h
    | cons c cs => exact hfail
  · simp [hgood] at h

theorem extractString_ok {s : IStream} (h : (extractString s).2 ≠ []) :
    (extractString s).1.fail = false := by
  unfold extractString at h ⊢
  dsimp only at h ⊢
  cases hok : (sentry s).2 with
  | false => simp [hok] at h
  | true => simpa using sentry_ok hok

def firstWord (s : IStream) : List Char :=
  if s.good then (s.rest.dropWhile isSpace).takeWhile fun c => !isSpace c else []

theorem extractString_firstWord (s : IStream) : (extractString s).2 = s.firstWord := by
  unfold extractString sentry firstWord
  by_cases hgood : s.good = true
  · rw [if_pos hgood,if_pos hgood]
    cases hrest : s.rest.dropWhile isSpace <;> simp
  · rw [if_neg hgood,if_neg hgood]
    rfl

theorem firstWord_noSpace (s : IStream) : ∀ c ∈ s.firstWord, isSpace c = false := by
  rw [← extractString_firstWord]
  exact extractString_noSpace s

theorem good_of_firstWord {s : IStream} (h : s.firstWord ≠ []) : s.good = true := by
  by_contra hgood
  exact h (if_neg hgood)

theorem firstWord_peek (s : IStream) : s.peek.1.firstWord = s.firstWord := by
  obtain ⟨rest,eof,fail⟩ := s
  cases eof <;> cases fail <;> cases rest <;> rfl

theorem peek_good {s : IStream} (h : s.good = true) : s.peek.2 = s.rest.head? := by
  unfold peek
  rw [if_pos h]
  cases s.rest <;> rfl

theorem peek_same {s : IStream} (hgood : s.good = true) (hrest : s.rest ≠ []) : s.peek.1 = s := by
  obtain ⟨rest,eof,fail⟩ := s
  obtain ⟨c,cs,rfl⟩ := List.exists_cons_of_ne_nil hrest
  unfold peek
  rw [if_pos hgood]

theorem peek_bad {s : IStream} (h : ¬ s.good = true) : s.peek.2 = none := by
  unfold peek
  rw [if_neg h]

theorem firstWord_head {s : IStream} (hgood : s.good = true) {c : Char}
    (hc : s.rest.head? = some c) (hspace : isSpace c = false) : s.firstWord.head? = some c := by
  obtain ⟨cs,hrest⟩ : ∃ cs, s.rest = c :: cs := by
    cases hs : s.rest with
    | nil => simp [hs] at hc
    | cons d ds => exact ⟨ds,by rw [hs,List.head?_cons] at hc; rw [Option.some.inj hc]⟩
  simp [firstWord,hgood,hrest,hspace]

theorem firstWord_token (t : Token) : (ofChars t.text).firstWord = t.text := by
  have hstring := @extractString_token [] [] (by simp) t (by simp)
  rw [List.nil_append,List.append_nil] at hstring
  rw [← extractString_firstWord,hstring]

theorem peek_cons (c : Char) (cs : List Char) :
    peek (stoppedAt (c :: cs)) = (ofChars (c :: cs),some c) := rfl

end IStream

end InputStream
