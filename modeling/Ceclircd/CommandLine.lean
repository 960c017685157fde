import Ceclircd.Getopt
import Ceclircd.InputStream
import Ceclircd.MainState
set_option autoImplicit false

/-! The option loop of `main`, against the options that its usage text names. -/

namespace Ceclircd
open InputStream Getopt

structure Options where
  loglevel : Int
  foreground : Bool
  list : Bool
  dontactivate : Bool
  lircpath : List Char
  deriving DecidableEq, Repr

def Options.initial : Options := ⟨-1,false,false,false,[]⟩

/-- `strtol(s, NULL, 10)` into a `long` of 64 bits. -/
def strtol (s : List Char) : Int :=
  match (Numeral.scan (s.dropWhile isSpace)).1 with
  | none => 0
  | some n => max (-2 ^ 63) (min n.value (2 ^ 63 - 1))

def atoi (s : List Char) : Int := toInt32 (strtol s)

def optstring : List Char := ['h','V','f','l','v',':','a','i',':']

/-- The `switch`. `none` is the usage text and the `return` behind it. -/
def handleOption (o : Options) (opt : Char) (optarg : Option (List Char)) : Option Options :=
  match opt,optarg with
  | 'd',some optarg => some { o with lircpath := optarg }
  | 'f',_ => some { o with foreground := true }
  | 'l',_ => some { o with list := true }
  | 'v',some optarg => some { o with loglevel := atoi optarg }
  | 'a',_ => some { o with dontactivate := true }
  | _,_ => none

/-- The loop, over the elements behind `argv[0]`. -/
def parseOptions (argv : List (List Char)) : Option (Ended Options) :=
  loop optstring handleOption (Scan.size ⟨[],argv⟩ + 1) ⟨[],argv⟩ .initial

def lircPathGiven (o : Options) : Option (List Char) :=
  if o.lircpath.isEmpty then none else some o.lircpath

/-! The options of the usage text, and how they may be written. -/

inductive DocOption where
  | socket (path : List Char)
  | foreground
  | list
  | dontActivate
  | level (num : Numeral)
  deriving DecidableEq, Repr

namespace DocOption

def letter : DocOption → Char
  | socket _ => 'd'
  | foreground => 'f'
  | list => 'l'
  | dontActivate => 'a'
  | level _ => 'v'

def argument : DocOption → Option (List Char)
  | socket path => some path
  | level num => some num.text
  | _ => none

def num? : DocOption → Option Numeral
  | level num => some num
  | _ => none

def path? : DocOption → Option (List Char)
  | socket path => some path
  | _ => none

def isSocket : DocOption → Bool
  | socket _ => true
  | _ => false

end DocOption

/-- Options written in what is left of an element, and the elements behind it. -/
inductive Written : List Char → List (List Char) → List DocOption → Prop where
  | done : Written [] [] []
  | element {c : Char} {cs : List Char} {args : List (List Char)} {os : List DocOption}
      (h : Written (c :: cs) args os) : Written [] (('-' :: c :: cs) :: args) os
  | flag {o : DocOption} {cs : List Char} {args : List (List Char)} {os : List DocOption}
      (ho : o.argument = none) (h : Written cs args os) : Written (o.letter :: cs) args (o :: os)
  | attached {o : DocOption} {text : List Char} {args : List (List Char)} {os : List DocOption}
      (ho : o.argument = some text) (hne : text ≠ []) (h : Written [] args os) :
      Written (o.letter :: text) args (o :: os)
  | separate {o : DocOption} {text : List Char} {args : List (List Char)} {os : List DocOption}
      (ho : o.argument = some text) (h : Written [] args os) :
      Written [o.letter] (text :: args) (o :: os)

/-! The loop over what is written. -/

def Options.apply (s : Options) : DocOption → Options
  | .socket path => { s with lircpath := path }
  | .foreground => { s with foreground := true }
  | .list => { s with list := true }
  | .dontActivate => { s with dontactivate := true }
  | .level num => { s with loglevel := atoi num.text }

theorem DocOption.letter_ne (o : DocOption) : o.letter ≠ '-' := by
  cases o <;> simp [letter]

theorem Written.letter_ne {c : Char} {cs : List Char} {args : List (List Char)}
    {os : List DocOption} (h : Written (c :: cs) args os) : c ≠ '-' := by
  cases h with
  | flag => exact DocOption.letter_ne _
  | attached => exact DocOption.letter_ne _
  | separate => exact DocOption.letter_ne _

/-- `d` is not in the option string. -/
theorem readOption_socket {o : DocOption} (ho : o.isSocket = true) (cs : List Char)
    (args : List (List Char)) :
    readOption optstring o.letter cs args = (some ('?',none),⟨cs,args⟩) := by
  cases o with
  | socket path => rfl
  | _ => simp [DocOption.isSocket] at ho

theorem readOption_flag {o : DocOption} (ho : o.argument = none) (cs : List Char)
    (args : List (List Char)) :
    readOption optstring o.letter cs args = (some (o.letter,o.argument),⟨cs,args⟩) := by
  cases o with
  | socket path => simp [DocOption.argument] at ho
  | level num => simp [DocOption.argument] at ho
  | _ => rfl

theorem arity_argument {o : DocOption} {text : List Char} (ho : o.argument = some text)
    (hs : o.isSocket = false) : arity o.letter optstring = some .argument := by
  cases o with
  | level num => rfl
  | _ => simp_all [DocOption.argument,DocOption.isSocket]

theorem readOption_attached {o : DocOption} {text : List Char} (ho : o.argument = some text)
    (hs : o.isSocket = false) (hne : text ≠ []) (args : List (List Char)) :
    readOption optstring o.letter text args = (some (o.letter,o.argument),⟨[],args⟩) := by
  simp only [readOption,arity_argument ho hs,ho]
  rw [if_pos hne]

theorem readOption_separate {o : DocOption} {text : List Char} (ho : o.argument = some text)
    (hs : o.isSocket = false) (args : List (List Char)) :
    readOption optstring o.letter [] (text :: args) = (some (o.letter,o.argument),⟨[],args⟩) := by
  simp only [readOption,arity_argument ho hs,ho]
  rw [if_neg (by simp)]

theorem handleOption_apply {o : DocOption} (hs : o.isSocket = false) (s : Options) :
    handleOption s o.letter o.argument = some (s.apply o) := by
  cases o with
  | socket => simp [DocOption.isSocket] at hs
  | _ => rfl

theorem loop_option {o : DocOption} {os : List DocOption} {scan next : Scan} {s : Options}
    {fuel : Nat}
    (hsocket : o.isSocket = true →
      ∃ next', getopt optstring scan = (some ('?',none),next'))
    (hget : o.isSocket = false → getopt optstring scan = (some (o.letter,o.argument),next))
    (hrest : loop optstring handleOption fuel next (s.apply o) =
      some (if os.any DocOption.isSocket then .stopped
        else .finished (os.foldl Options.apply (s.apply o)) ⟨[],[]⟩)) :
    loop optstring handleOption (fuel + 1) scan s =
      some (if (o :: os).any DocOption.isSocket then .stopped
        else .finished ((o :: os).foldl Options.apply s) ⟨[],[]⟩) := by
  cases hs : o.isSocket with
  | true =>
    obtain ⟨next',hunknown⟩ := hsocket hs
    rw [loop_stopped hunknown rfl]
    simp [hs]
  | false =>
    rw [loop_handled (hget hs) (handleOption_apply hs s),hrest]
    simp [hs]

/-- Options that are written in any way are all handled, unless one of them is `-d`. -/
theorem loop_written {cs : List Char} {args : List (List Char)} {os : List DocOption}
    (h : Written cs args os) {fuel : Nat} (hfuel : Scan.size ⟨cs,args⟩ < fuel) (s : Options) :
    loop optstring handleOption fuel ⟨cs,args⟩ s =
      some (if os.any DocOption.isSocket then .stopped
        else .finished (os.foldl Options.apply s) ⟨[],[]⟩) := by
  obtain ⟨fuel,rfl⟩ : ∃ m, fuel = m + 1 := ⟨fuel - 1,by omega⟩
  induction h generalizing fuel s with
  | done => rfl
  | element h ih =>
    rw [loop_element h.letter_ne]
    apply ih
    simp only [Scan.size,List.flatten_cons,List.length_append,List.length_cons,List.length_nil]
      at hfuel ⊢
    omega
  | @flag o cs args os ho h ih =>
    simp only [Scan.size,List.length_cons] at hfuel
    obtain ⟨fuel,rfl⟩ : ∃ m, fuel = m + 1 := ⟨fuel - 1,by omega⟩
    have hrest := ih (s.apply o) fuel (by simp only [Scan.size]; omega)
    exact loop_option (fun hs => ⟨_,readOption_socket hs cs args⟩)
      (fun _ => readOption_flag ho cs args) hrest
  | @attached o text args os ho hne h ih =>
    simp only [Scan.size,List.length_cons] at hfuel
    obtain ⟨fuel,rfl⟩ : ∃ m, fuel = m + 1 := ⟨fuel - 1,by omega⟩
    have hrest := ih (s.apply o) fuel (by simp only [Scan.size,List.length_nil]; omega)
    exact loop_option (fun hs => ⟨_,readOption_socket hs text args⟩)
      (fun hs => readOption_attached ho hs hne args) hrest
  | @separate o text args os ho h ih =>
    simp only [Scan.size,List.flatten_cons,List.length_append,List.length_cons,List.length_nil]
      at hfuel
    obtain ⟨fuel,rfl⟩ : ∃ m, fuel = m + 1 := ⟨fuel - 1,by omega⟩
    have hrest := ih (s.apply o) fuel (by simp only [Scan.size,List.length_nil]; omega)
    exact loop_option (fun hs => ⟨_,readOption_socket hs [] (text :: args)⟩)
      (fun hs => readOption_separate ho hs args) hrest

/-! What the variables are behind the loop. -/

def lastLevel (os : List DocOption) : Option Numeral := (os.filterMap DocOption.num?).getLast?

def lastSocket (os : List DocOption) : Option (List Char) := (os.filterMap DocOption.path?).getLast?

theorem foldl_flags (os : List DocOption) (s : Options) :
    ((os.foldl Options.apply s).foreground = true ↔ s.foreground = true ∨ .foreground ∈ os) ∧
      ((os.foldl Options.apply s).list = true ↔ s.list = true ∨ .list ∈ os) ∧
      ((os.foldl Options.apply s).dontactivate = true ↔
        s.dontactivate = true ∨ .dontActivate ∈ os) := by
  induction os generalizing s with
  | nil => simp
  | cons o os ih =>
    rw [List.foldl_cons]
    obtain ⟨hf,hl,ha⟩ := ih (s.apply o)
    rw [hf,hl,ha]
    cases o <;> simp [Options.apply]

theorem foldl_loglevel (os : List DocOption) (s : Options) :
    (os.foldl Options.apply s).loglevel =
      ((lastLevel os).map fun num => atoi num.text).getD s.loglevel := by
  induction os generalizing s with
  | nil => rfl
  | cons o os ih =>
    rw [List.foldl_cons,ih]
    cases o with
    | level num =>
      have hlast : lastLevel (.level num :: os) = some ((lastLevel os).getD num) := by
        simp [lastLevel,DocOption.num?,List.getLast?_cons]
      rw [hlast]
      cases lastLevel os <;> rfl
    | _ => rfl

theorem foldl_lircpath {os : List DocOption} (hos : os.any DocOption.isSocket = false)
    (s : Options) : (os.foldl Options.apply s).lircpath = s.lircpath := by
  induction os generalizing s with
  | nil => rfl
  | cons o os ih =>
    rw [List.any_cons,Bool.or_eq_false_iff] at hos
    rw [List.foldl_cons,ih hos.2]
    cases o with
    | socket path => simp [DocOption.isSocket] at hos
    | _ => rfl

theorem lastSocket_none {os : List DocOption} (hos : os.any DocOption.isSocket = false) :
    lastSocket os = none := by
  rw [lastSocket,List.getLast?_eq_none_iff,List.filterMap_eq_nil_iff]
  intro o ho
  have hs := List.any_eq_false.mp hos o ho
  cases o with
  | socket path => simp [DocOption.isSocket] at hs
  | _ => rfl

theorem dropWhile_numeral (num : Numeral) : num.text.dropWhile isSpace = num.text := by
  obtain ⟨c,cs,htext⟩ : ∃ c cs, num.text = c :: cs :=
    List.exists_cons_of_ne_nil (by simp [Numeral.text,num.nonempty])
  have hc : isSpace c = false := num.noSpace c (by rw [htext]; exact List.mem_cons_self)
  rw [htext,List.dropWhile_cons_of_neg (by simp [hc])]

theorem atoi_eq_iff (num : Numeral) :
    atoi num.text = num.value ↔ -2 ^ 31 ≤ num.value ∧ num.value < 2 ^ 31 := by
  have hstrtol : strtol num.text = max (-2 ^ 63) (min num.value (2 ^ 63 - 1)) := by
    have hscan := num.scan_append startsNoDigit_nil
    rw [List.append_nil] at hscan
    rw [strtol,dropWhile_numeral,hscan]
  rw [atoi,hstrtol,toInt32]
  constructor
  · intro h
    have hlow := @Int.le_bmod (max (-2 ^ 63) (min num.value (2 ^ 63 - 1))) (2 ^ 32) (by decide)
    have hhigh := @Int.bmod_lt (max (-2 ^ 63) (min num.value (2 ^ 63 - 1))) (2 ^ 32) (by decide)
    omega
  · rintro ⟨hlow,hhigh⟩
    rw [show max (-2 ^ 63) (min num.value (2 ^ 63 - 1)) = num.value by omega]
    exact Int.bmod_eq_of_le (by omega) (by omega)

theorem parseOptions_total (argv : List (List Char)) : ∃ e, parseOptions argv = some e :=
  loop_total _ (Nat.lt_succ_self _)

theorem isSocket_iff (os : List DocOption) :
    os.any DocOption.isSocket = false ↔ ∀ path, .socket path ∉ os := by
  rw [List.any_eq_false]
  constructor
  · intro h path hmem
    exact h _ hmem rfl
  · intro h o ho
    cases o with
    | socket path => exact absurd ho (h path)
    | _ => simp [DocOption.isSocket]

/-- A command line of documented options is understood exactly when `-d` is not among them and
an `int` holds the last level. -/
theorem parseOptions_iff {argv : List (List Char)} {os : List DocOption}
    (h : Written [] argv os) :
    (∃ o, parseOptions argv = some (.finished o ⟨[],[]⟩) ∧
      (o.foreground = true ↔ .foreground ∈ os) ∧ (o.list = true ↔ .list ∈ os) ∧
      (o.dontactivate = true ↔ .dontActivate ∈ os) ∧
      o.loglevel = ((lastLevel os).map Numeral.value).getD (-1) ∧
      lircPathGiven o = lastSocket os) ↔
    (∀ path, .socket path ∉ os) ∧
      ∀ num, lastLevel os = some num → -2 ^ 31 ≤ num.value ∧ num.value < 2 ^ 31 := by
  have hloop := loop_written h (Nat.lt_succ_self _) .initial
  have hlevel := foldl_loglevel os .initial
  rw [← isSocket_iff]
  constructor
  · rintro ⟨o,hparse,-,-,-,hloglevel,-⟩
    rw [parseOptions,hloop] at hparse
    cases hs : os.any DocOption.isSocket with
    | true => simp [hs] at hparse
    | false =>
      simp only [hs,Bool.false_eq_true,if_false,Option.some.injEq,Ended.finished.injEq] at hparse
      obtain ⟨rfl,-⟩ := hparse
      refine ⟨rfl,fun num hnum => ?_⟩
      rw [hlevel,hnum] at hloglevel
      exact (atoi_eq_iff num).mp hloglevel
  · rintro ⟨hs,hnum⟩
    rw [hs] at hloop
    obtain ⟨hf,hl,ha⟩ := foldl_flags os .initial
    refine ⟨os.foldl Options.apply .initial,hloop,?_,?_,?_,?_,?_⟩
    · simpa [Options.initial] using hf
    · simpa [Options.initial] using hl
    · simpa [Options.initial] using ha
    · rw [hlevel]
      cases hlast : lastLevel os with
      | none => rfl
      | some num => exact (atoi_eq_iff num).mpr (hnum num hlast)
    · rw [lastSocket_none hs,lircPathGiven,foldl_lircpath hs]
      rfl

theorem parseOptions_clustered :
    ∃ o, parseOptions [['-','f','v','2'],['-','a']] = some (.finished o ⟨[],[]⟩) ∧
      o.foreground = true ∧ o.loglevel = 2 ∧ lircPathGiven o = none := by
  have hwritten : Written [] [['-','f','v','2'],['-','a']]
      [.foreground,.level (.ofNat 2),.dontActivate] :=
    .element (@Written.flag .foreground _ _ _ rfl
      (@Written.attached (.level (.ofNat 2)) ['2'] _ _ rfl (by decide)
        (.element (@Written.flag .dontActivate _ _ _ rfl .done))))
  obtain ⟨o,hparse,hf,-,-,hlevel,hpath⟩ := (parseOptions_iff hwritten).mpr
    ⟨by simp,by rintro num ⟨⟩; exact ⟨by decide,by decide⟩⟩
  exact ⟨o,hparse,hf.mpr (by simp),hlevel.trans (by decide),hpath⟩

/-- `-d` with a path takes the usage exit. -/
theorem socket_option_refused :
    ¬ ∀ (argv : List (List Char)) (os : List DocOption), Written [] argv os →
      ∃ o, parseOptions argv = some (.finished o ⟨[],[]⟩) ∧
        (o.foreground = true ↔ .foreground ∈ os) ∧ (o.list = true ↔ .list ∈ os) ∧
        (o.dontactivate = true ↔ .dontActivate ∈ os) ∧
        o.loglevel = ((lastLevel os).map Numeral.value).getD (-1) ∧
        lircPathGiven o = lastSocket os := by
  intro h
  obtain ⟨o,hparse,-⟩ := h [['-','d'],['/','t','m','p','/','s']]
    [.socket ['/','t','m','p','/','s']]
    (.element (@Written.separate (.socket ['/','t','m','p','/','s']) _ _ _ rfl .done))
  have husage : parseOptions [['-','d'],['/','t','m','p','/','s']] = some .stopped := by decide
  rw [husage] at hparse
  simp at hparse

end Ceclircd
