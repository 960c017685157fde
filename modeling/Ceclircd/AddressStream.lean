import Ceclircd.CecTypes
import Ceclircd.HdmiAddress
import Mathlib.Tactic.IntervalCases
set_option autoImplicit false

/-! `HDMI::address`: its extraction from a stream, how it is printed, and which of the
accepted tokens are read back from what is printed. -/

namespace Ceclircd
open InputStream

structure Address where
  physical : PhysicalAddress
  logical : Int
  port : BitVec 8
  deriving DecidableEq, Repr

def Address.default : Address := ⟨⟨0⟩,cecDeviceUnknown,0⟩

/-- The tail of a `tv` or `av` token. `port` may keep what was on the stack, `garbage`. -/
def extractPort (garbage : Nat) (input : IStream) (address : Address) (s : List Char) :
    IStream × Address :=
  if s.isEmpty then
    if address.logical = cecDeviceTv then (input,{ address with port := 0 })
    else (input.setFail,address)
  else
    let (ss,c) := (IStream.ofChars s).extractChar
    let (ss,port) := ss.extractUnsigned (2 ^ 32)
    let port := port.getD garbage
    let input := if ss.fail ∨ c ≠ some '.' ∨ port < 1 ∨ port > 15 then input.setFail else input
    (input,{ address with port := BitVec.ofNat 8 port })

/-- A word that does not start with a digit names a device, and perhaps a port. -/
def extractDevice (garbage : Nat) (input : IStream) (address : Address) :
    List Char → IStream × Address
  | 't' :: 'v' :: s => extractPort garbage input { address with logical := cecDeviceTv } s
  | 'a' :: 'v' :: s =>
    extractPort garbage input { address with logical := cecDeviceAudioSystem } s
  | _ => (input.setFail,address)

/-- `operator>>(std::istream &, HDMI::address &)` -/
def extractAddress (garbage : Nat) (input : IStream) (address : Address) :
    Option (IStream × Address) :=
  let (input,c) := input.peek
  if (c.any fun c => '0' ≤ c ∧ c ≤ '9') then do
    let (input,physical) ← extractPhysical input address.physical
    some (input,{ address with physical })
  else
    let (input,s) := input.extractString
    some (extractDevice garbage input address s)

def printInt (v : Int) : List Char :=
  if v < 0 then '-' :: Nat.toDigits 10 v.natAbs else Nat.toDigits 10 v.natAbs

def printPhysical (a : PhysicalAddress) : List Char :=
  printInt (a.get 0).toInt ++ '.' :: (printInt (a.get 1).toInt ++ '.' ::
    (printInt (a.get 2).toInt ++ '.' :: printInt (a.get 3).toInt))

/-- `out << '.' << address.port`: the port is an `unsigned char`, printed as a character. -/
def printPort (port : BitVec 8) : List Char :=
  if port ≠ 0 then ['.',Char.ofNat port.toNat] else []

/-- `operator<<(std::ostream &, const HDMI::address &)` -/
def printAddress (a : Address) : List Char :=
  if a.logical = cecDeviceTv then 't' :: 'v' :: printPort a.port
  else if a.logical = cecDeviceAudioSystem then 'a' :: 'v' :: printPort a.port
  else printPhysical a.physical

/-! What is printed of a physical address is read back. -/

theorem shift_mask (x : BitVec 16) (i : Nat) :
    ((x.setWidth 32 >>> i) &&& 15#32).toNat = x.toNat / 2 ^ i % 16 := by
  have hx := x.isLt
  have hmask : x.toNat >>> i &&& 15 = x.toNat >>> i % 16 :=
    Nat.and_two_pow_sub_one_eq_mod (x.toNat >>> i) 4
  rw [BitVec.toNat_and,BitVec.toNat_ushiftRight,BitVec.toNat_setWidth,
    Nat.mod_eq_of_lt (by omega : x.toNat < 2 ^ 32)]
  exact hmask.trans (by rw [Nat.shiftRight_eq_div_pow])

theorem get_toInt (a : PhysicalAddress) :
    (a.get 0).toInt = a.address.toNat / 4096 % 16 ∧ (a.get 1).toInt = a.address.toNat / 256 % 16 ∧
      (a.get 2).toInt = a.address.toNat / 16 % 16 ∧ (a.get 3).toInt = a.address.toNat % 16 := by
  have hint : ∀ (x : BitVec 32) (n : Nat), x.toNat = n % 16 → x.toInt = n % 16 := by
    intro x n hx
    rw [BitVec.toInt_eq_toNat_of_lt (by omega),hx]
    rfl
  have h0 := shift_mask a.address 12
  have h1 := shift_mask a.address 8
  have h2 := shift_mask a.address 4
  have h3 := shift_mask a.address 0
  exact ⟨hint _ _ h0,hint _ _ h1,hint _ _ h2,hint _ _ (h3.trans (by rw [pow_zero,Nat.div_one]))⟩

theorem printInt_natCast (m : Nat) : printInt m = (Numeral.ofNat m).text := by
  rw [printInt,if_neg (by omega)]
  rfl

def components (a : PhysicalAddress) : List Numeral :=
  [.ofNat (a.address.toNat / 4096 % 16),.ofNat (a.address.toNat / 256 % 16),
    .ofNat (a.address.toNat / 16 % 16),.ofNat (a.address.toNat % 16)]

theorem printPhysical_eq (a : PhysicalAddress) : printPhysical a = dotted (components a) := by
  obtain ⟨h0,h1,h2,h3⟩ := get_toInt a
  unfold printPhysical components
  rw [h0,h1,h2,h3,dotted_cons,dotted_cons,dotted_cons,dotted_singleton]
  simp only [← printInt_natCast]
  rfl

def startsDigit (cs : List Char) : Bool := cs.head?.any Char.isDigit

theorem startsDigit_dotted (m : Nat) (ns : List Numeral) :
    startsDigit (dotted (.ofNat m :: ns)) = true := by
  obtain ⟨d,ds,hm⟩ := List.exists_cons_of_ne_nil (Numeral.ofNat m).nonempty
  have hd : d.isDigit = true := (Numeral.ofNat m).isDigit d (by rw [hm]; simp)
  have htext : (Numeral.ofNat m).text = d :: ds := hm
  cases ns with
  | nil => rw [dotted_singleton,htext]; simpa [startsDigit] using hd
  | cons n ns => rw [dotted_cons,htext]; simpa [startsDigit] using hd

theorem components_form (a : PhysicalAddress) : PhysicalForm (components a) := by
  refine ⟨by simp [components],by simp [components],?_⟩
  intro n hn
  simp only [components,List.mem_cons,List.not_mem_nil,or_false] at hn
  rcases hn with rfl | rfl | rfl | rfl <;> rw [Numeral.value_ofNat] <;> omega

theorem set_components (a : PhysicalAddress) :
    PhysicalAddress.set (store #v[0,0,0,0] 0 ((components a).map Numeral.value)) = a := by
  have hset := set_store (by simp [components]) (components_form a).values_inRange
  have hpack : packing ((components a).map Numeral.value) = a.address.toNat := by
    have hlt := a.address.isLt
    simp only [components,List.map_cons,List.map_nil,Numeral.value_ofNat,packing,
      List.getD_cons_zero,List.getD_cons_succ]
    omega
  have hnat := Int.ofNat.inj (hset.trans hpack)
  exact congrArg PhysicalAddress.mk (BitVec.eq_of_toNat_eq hnat)

theorem dotted_noSpace (ns : List Numeral) : ∀ c ∈ dotted ns, isSpace c = false := by
  intro c hc
  induction ns with
  | nil => simp [dotted,List.intercalate] at hc
  | cons n ns ih =>
    cases ns with
    | nil => exact n.noSpace c (dotted_singleton n ▸ hc)
    | cons m ns =>
      rw [dotted_cons,List.mem_append,List.mem_cons] at hc
      rcases hc with hn | rfl | hns
      · exact n.noSpace c hn
      · decide
      · exact ih hns

theorem startsDigit_printPhysical (a : PhysicalAddress) :
    startsDigit (printPhysical a) = true := by
  rw [printPhysical_eq]
  exact startsDigit_dotted _ _

theorem printPhysical_ne_nil (a : PhysicalAddress) : printPhysical a ≠ [] := by
  intro hnil
  have hd := startsDigit_printPhysical a
  simp [hnil,startsDigit] at hd

theorem printPhysical_noSpace (a : PhysicalAddress) :
    ∀ c ∈ printPhysical a, isSpace c = false := by
  rw [printPhysical_eq]
  exact dotted_noSpace _

theorem extractPhysical_printed {ws after : List Char} (hws : ∀ c ∈ ws, isSpace c = true)
    (ha : ∀ c ∈ after.head?, isSpace c = true) (a prior : PhysicalAddress) :
    extractPhysical (.ofChars (ws ++ (printPhysical a ++ after))) prior =
      some (.stoppedAt after,a) := by
  have hread := extractPhysical_accepts hws
    ⟨printPhysical a,printPhysical_ne_nil a,printPhysical_noSpace a⟩ ha prior
    (components_form a) (printPhysical_eq a)
  rwa [set_components] at hread

theorem digit_test (c : Char) :
    ((some c).any fun c => decide ('0' ≤ c ∧ c ≤ '9')) = c.isDigit := by
  rw [Option.any_some,Bool.decide_and]
  rfl

theorem digit_any (o : Option Char) :
    (o.any fun c => decide ('0' ≤ c ∧ c ≤ '9')) = o.any Char.isDigit := by
  cases o with
  | none => rfl
  | some c => exact digit_test c

theorem extractAddress_physical (garbage : Nat) {input : IStream} (hgood : input.good = true)
    (hd : startsDigit input.rest = true) (a : Address) :
    extractAddress garbage input a = (extractPhysical input a.physical).map
      fun r => (r.1,{ a with physical := r.2 }) := by
  obtain ⟨c,cs,hrest⟩ : ∃ c cs, input.rest = c :: cs := by
    cases hrest : input.rest with
    | nil => simp [hrest,startsDigit] at hd
    | cons c cs => exact ⟨c,cs,rfl⟩
  have hdigit : c.isDigit = true := by simpa [hrest,startsDigit] using hd
  have hpeek : input.peek = (input,some c) :=
    Prod.ext (IStream.peek_same hgood (by simp [hrest]))
      ((IStream.peek_good hgood).trans (by rw [hrest]; rfl))
  unfold extractAddress
  rw [hpeek]
  dsimp only
  rw [if_pos ((digit_test c).trans hdigit)]
  cases extractPhysical input a.physical <;> rfl

theorem extractAddress_firstWord (garbage : Nat) {input : IStream}
    (h : input.good = true → startsDigit input.rest = false) (a : Address) :
    extractAddress garbage input a =
      some (extractDevice garbage input.peek.1.extractString.1 a input.firstWord) := by
  have hc : ¬ (input.peek.2.any fun c => decide ('0' ≤ c ∧ c ≤ '9')) = true := by
    by_cases hgood : input.good = true
    · rw [IStream.peek_good hgood,digit_any]
      exact Bool.not_eq_true _ ▸ h hgood
    · rw [IStream.peek_bad hgood]
      simp
  unfold extractAddress
  dsimp only
  rw [if_neg hc,IStream.extractString_firstWord,IStream.firstWord_peek]

theorem extractAddress_digit (garbage : Nat) {cs : List Char} (h : startsDigit cs = true)
    (a : Address) : extractAddress garbage (.ofChars cs) a =
      (extractPhysical (.ofChars cs) a.physical).map fun r => (r.1,{ a with physical := r.2 }) :=
  extractAddress_physical garbage rfl h a

theorem readBack_physical (garbage : Nat) (p : PhysicalAddress) :
    extractAddress garbage (.ofChars (printAddress { Address.default with physical := p }))
      .default = some (.stoppedAt [],{ Address.default with physical := p }) := by
  have hprint : printAddress { Address.default with physical := p } = printPhysical p := rfl
  have hread := @extractPhysical_printed [] [] (by simp) (by simp) p Address.default.physical
  rw [List.nil_append,List.append_nil] at hread
  rw [hprint,extractAddress_digit garbage (startsDigit_printPhysical p),hread]
  rfl

theorem extractAddress_word (garbage : Nat) {cs : List Char} (h : startsDigit cs = false)
    (hne : cs ≠ []) (hcs : ∀ c ∈ cs, isSpace c = false) (a : Address) :
    extractAddress garbage (.ofChars cs) a =
      some (extractDevice garbage (.stoppedAt []) a cs) := by
  have hstring := @IStream.extractString_token [] [] (by simp) ⟨cs,hne,hcs⟩ (by simp)
  rw [List.nil_append,List.append_nil] at hstring
  have hpeek : (IStream.ofChars cs).peek.1 = .ofChars cs := IStream.peek_same rfl hne
  rw [extractAddress_firstWord garbage (fun _ => h),hpeek,← IStream.extractString_firstWord,hstring]

/-! The words, and which of them are taken. -/

inductive Device where
  | tv
  | av
  deriving DecidableEq, Repr

def Device.name : Device → List Char
  | .tv => ['t','v']
  | .av => ['a','v']

def Device.logical : Device → Int
  | .tv => cecDeviceTv
  | .av => cecDeviceAudioSystem

/-- The words that the code takes, with the `logical` and the `port` it assigns. -/
inductive Names : List Char → Int → BitVec 8 → Prop where
  | tv : Names Device.tv.name cecDeviceTv 0
  | port (d : Device) (n : Numeral) (rest : List Char) (hr : StartsNoDigit rest)
      (hn : n.magnitude < 2 ^ 32) (h1 : 1 ≤ n.wrapped (2 ^ 32)) (h15 : n.wrapped (2 ^ 32) ≤ 15) :
      Names (d.name ++ '.' :: (n.text ++ rest)) d.logical (BitVec.ofNat 8 (n.wrapped (2 ^ 32)))

/-- The number that `ss >> port` leaves, where it may also keep what was there before. -/
def portRead (garbage : Nat) (cs : List Char) : Nat :=
  ((IStream.ofChars cs).extractUnsigned (2 ^ 32)).2.getD garbage

theorem extractDevice_device (garbage : Nat) (input : IStream) (a : Address) (d : Device)
    (s : List Char) : extractDevice garbage input a (d.name ++ s) =
      extractPort garbage input { a with logical := d.logical } s := by
  cases d <;> rfl

theorem extractDevice_other (garbage : Nat) (input : IStream) (a : Address) {s : List Char}
    (hs : ∀ (d : Device) (tail : List Char), s ≠ d.name ++ tail) :
    extractDevice garbage input a s = (input.setFail,a) := by
  unfold extractDevice
  split
  · exact absurd rfl (hs .tv _)
  · exact absurd rfl (hs .av _)
  · rfl

theorem extractPort_cons (garbage : Nat) (input : IStream) (a : Address) {c : Char}
    (cs : List Char) (hc : isSpace c = false) :
    extractPort garbage input a (c :: cs) =
      (if ((IStream.ofChars cs).extractUnsigned (2 ^ 32)).1.fail = true ∨ c ≠ '.' ∨
          portRead garbage cs < 1 ∨ portRead garbage cs > 15 then input.setFail else input,
        { a with port := BitVec.ofNat 8 (portRead garbage cs) }) := by
  unfold extractPort portRead
  rw [if_neg (by simp),IStream.extractChar_cons cs hc]
  simp

theorem portRead_numeral (garbage : Nat) {n : Numeral} {rest : List Char}
    (hr : StartsNoDigit rest) (hn : n.magnitude < 2 ^ 32) :
    portRead garbage (n.text ++ rest) = n.wrapped (2 ^ 32) := by
  rw [portRead,IStream.extractUnsigned_numeral hr hn]
  rfl

theorem extractDevice_names {s : List Char} {l : Int} {p : BitVec 8} (h : Names s l p)
    (garbage : Nat) (input : IStream) (a : Address) :
    extractDevice garbage input a s = (input,{ a with logical := l, port := p }) := by
  cases h with
  | tv => rfl
  | port d n rest hr hn h1 h15 =>
    rw [extractDevice_device,extractPort_cons _ _ _ _ (by decide),portRead_numeral _ hr hn,
      IStream.extractUnsigned_numeral hr hn,if_neg]
    rintro (hfail | hdot | hlow | hhigh)
    · exact Bool.false_ne_true hfail
    · exact hdot rfl
    · omega
    · omega

/-- What a word that starts with a device's name leaves behind when it is not taken. -/
def Device.leftover (d : Device) (garbage : Nat) (a : Address) : List Char → Address
  | [] => { a with logical := d.logical }
  | _ :: cs => { a with logical := d.logical, port := BitVec.ofNat 8 (portRead garbage cs) }

theorem extractDevice_rejects {d : Device} {s : List Char} (hs : ∀ c ∈ s, isSpace c = false)
    (h : ∀ l p, ¬ Names (d.name ++ s) l p) (garbage : Nat) (input : IStream) (a : Address) :
    extractDevice garbage input a (d.name ++ s) = (input.setFail,d.leftover garbage a s) := by
  rw [extractDevice_device]
  cases s with
  | nil =>
    cases d with
    | tv => exact absurd .tv (h _ _)
    | av => rfl
  | cons c cs =>
    have hcs : ∀ x ∈ cs, isSpace x = false := fun x hx => hs x (List.mem_cons_of_mem _ hx)
    rw [extractPort_cons _ _ _ _ (hs c List.mem_cons_self),if_pos]
    · rfl
    · by_contra hgood
      simp only [not_or,Bool.not_eq_true,ne_eq,not_not,Nat.not_lt] at hgood
      obtain ⟨hok,rfl,h1,h15⟩ := hgood
      obtain ⟨n,rest,rfl,hr,hn⟩ := IStream.exists_of_extractUnsigned hcs hok
      rw [portRead_numeral _ hr hn] at h1 h15
      exact h _ _ (.port d n rest hr hn h1 h15)

theorem extractDevice_fails {s : List Char} (hs : ∀ c ∈ s, isSpace c = false)
    (h : ∀ l p, ¬ Names s l p) (garbage : Nat) (input : IStream) (a : Address) :
    (extractDevice garbage input a s).1 = input.setFail := by
  by_cases hdevice : ∃ (d : Device) (tail : List Char), s = d.name ++ tail
  · obtain ⟨d,tail,rfl⟩ := hdevice
    have htail : ∀ c ∈ tail, isSpace c = false := fun c hc => hs c (List.mem_append_right _ hc)
    rw [extractDevice_rejects htail h]
  · rw [extractDevice_other _ _ _ fun d tail ht => hdevice ⟨d,tail,ht⟩]

/-! Reading back. -/

/-- A port comes out as one character, and no extraction takes that for a number. -/
theorem printPort_lost (garbage : Nat) {p : Nat} (h1 : 1 ≤ p) (h15 : p ≤ 15) (d : Device) :
    ∃ input a, extractAddress garbage (.ofChars (printAddress
      { Address.default with logical := d.logical, port := BitVec.ofNat 8 p })) .default =
        some (input,a) ∧ input.fail = true := by
  cases d with
  | tv => interval_cases p <;> exact ⟨_,_,rfl,rfl⟩
  | av => interval_cases p <;> exact ⟨_,_,rfl,rfl⟩

/-- An accepted token survives printing and reading back exactly when it is a physical
address or a bare `tv`. -/
theorem readBack_iff {garbage : Nat} {t : Token} {input : IStream} {a : Address}
    (h : extractAddress garbage (.ofChars t.text) .default = some (input,a))
    (hok : input.fail = false) (garbage' : Nat) :
    (∃ input', extractAddress garbage' (.ofChars (printAddress a)) .default =
        some (input',a) ∧ input'.fail = false) ↔
      startsDigit t.text = true ∨ t.text = ['t','v'] := by
  cases hdigit : startsDigit t.text with
  | true =>
    rw [extractAddress_digit garbage hdigit,Option.map_eq_some_iff] at h
    obtain ⟨r,_,hr⟩ := h
    obtain rfl := (Prod.mk.inj hr).2
    exact ⟨fun _ => .inl rfl,fun _ => ⟨_,readBack_physical garbage' r.2,rfl⟩⟩
  | false =>
    rw [extractAddress_word garbage hdigit t.nonempty t.noSpace] at h
    have hr := Option.some.inj h
    by_cases hnames : ∃ l p, Names t.text l p
    · obtain ⟨l,p,hnames⟩ := hnames
      rw [extractDevice_names hnames] at hr
      obtain ⟨rfl,rfl⟩ := Prod.mk.inj hr
      generalize htext : t.text = s at hnames
      cases hnames with
      | tv => exact ⟨fun _ => .inr rfl,fun _ => ⟨.stoppedAt [],rfl,rfl⟩⟩
      | port d n rest _ _ h1 h15 =>
        obtain ⟨input',a',hlost,hfail⟩ := printPort_lost garbage' h1 h15 d
        constructor
        · rintro ⟨input₁,hread,hgood⟩
          rw [hlost] at hread
          obtain ⟨rfl,-⟩ := Prod.mk.inj (Option.some.inj hread)
          simp [hfail] at hgood
        · rintro (hf | htv)
          · simp at hf
          · cases d <;> simp [Device.name] at htv
    · have hfails := extractDevice_fails t.noSpace (fun l p hl => hnames ⟨l,p,hl⟩) garbage
        (.stoppedAt []) .default
      rw [hr] at hfails
      dsimp only at hfails
      rw [hfails] at hok
      simp [IStream.setFail] at hok

theorem readBack_short_form :
    ∃ input', extractAddress 0 (.ofChars (printAddress ⟨⟨0x2100#16⟩,cecDeviceUnknown,0⟩))
        .default = some (input',⟨⟨0x2100#16⟩,cecDeviceUnknown,0⟩) ∧ input'.fail = false :=
  (@readBack_iff 0 ⟨['2','.','1'],by decide,by simp [isSpace]⟩ (.stoppedAt [])
    ⟨⟨0x2100#16⟩,cecDeviceUnknown,0⟩ (by decide) rfl 0).mpr (.inl (by decide))

/-- `tv.3` is accepted, printed as `tv.` and the character with code 3, and not read back. -/
theorem tvPort_not_readBack :
    ¬ ∀ (garbage garbage' : Nat) (t : Token) (input : IStream) (a : Address),
      extractAddress garbage (.ofChars t.text) .default = some (input,a) → input.fail = false →
        ∃ input', extractAddress garbage' (.ofChars (printAddress a)) .default =
          some (input',a) ∧ input'.fail = false := by
  intro h
  obtain ⟨input',hread,hgood⟩ := h 0 0 ⟨['t','v','.','3'],by decide,by simp [isSpace]⟩ (.stoppedAt [])
    ⟨⟨0⟩,cecDeviceTv,3⟩ (by decide) rfl
  have hlost : extractAddress 0 (.ofChars (printAddress ⟨⟨0⟩,cecDeviceTv,3⟩)) .default =
      some (⟨[],true,true⟩,⟨⟨0⟩,cecDeviceTv,0⟩) := by decide
  rw [hlost] at hread
  simp [Address.mk.injEq] at hread

end Ceclircd
