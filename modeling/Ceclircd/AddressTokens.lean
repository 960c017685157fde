import Ceclircd.AddressStream
set_option autoImplicit false

/-! Which tokens `operator>>` for `HDMI::address` accepts, what each of them assigns, and what
it leaves of the address that was there before. -/

namespace Ceclircd
open InputStream

/-! The two ways through the extraction, for a token in its place. -/

theorem startsDigit_append {cs : List Char} (hne : cs ≠ []) (ds : List Char) :
    startsDigit (cs ++ ds) = startsDigit cs := by
  obtain ⟨c,cs,rfl⟩ := List.exists_cons_of_ne_nil hne
  rfl

theorem startsDigit_gap {ws : List Char} (hws : ∀ c ∈ ws, isSpace c = true) (hne : ws ≠ [])
    (cs : List Char) : startsDigit (ws ++ cs) = false := by
  obtain ⟨c,ws,rfl⟩ := List.exists_cons_of_ne_nil hne
  have hspace := hws c List.mem_cons_self
  cases hdigit : c.isDigit with
  | false => simp [startsDigit,hdigit]
  | true => simp [isSpace_of_isDigit hdigit] at hspace

theorem extractAddress_asWord (garbage : Nat) {ws after : List Char}
    (hws : ∀ c ∈ ws, isSpace c = true) (t : Token) (ha : ∀ c ∈ after.head?, isSpace c = true)
    (h : startsDigit (ws ++ t.text) = false) (a : Address) :
    extractAddress garbage (.ofChars (ws ++ (t.text ++ after))) a =
      some (extractDevice garbage (.stoppedAt after) a t.text) := by
  have hne : ws ++ t.text ≠ [] := by simp [t.nonempty]
  have hstring := IStream.extractString_token hws t ha
  rw [← startsDigit_append hne after,List.append_assoc] at h
  have hpeek : (IStream.ofChars (ws ++ (t.text ++ after))).peek.1 =
      .ofChars (ws ++ (t.text ++ after)) := IStream.peek_same rfl (by simp [IStream.ofChars,t.nonempty])
  rw [extractAddress_firstWord garbage (fun _ => h),hpeek,← IStream.extractString_firstWord,hstring]

theorem extractAddress_asPhysical (garbage : Nat) (t : Token) {after : List Char}
    (h : startsDigit t.text = true) (a : Address) :
    extractAddress garbage (.ofChars (t.text ++ after)) a =
      (extractPhysical (.ofChars (t.text ++ after)) a.physical).map
        fun r => (r.1,{ a with physical := r.2 }) :=
  extractAddress_digit garbage ((startsDigit_append t.nonempty after).trans h) a

theorem Device.not_startsDigit (d : Device) (s : List Char) :
    startsDigit (d.name ++ s) = false := by
  cases d <;> rfl

theorem Names.nonempty {s : List Char} {l : Int} {p : BitVec 8} (h : Names s l p) : s ≠ [] := by
  cases h with
  | tv => simp [Device.name]
  | port d => simp

theorem Names.not_startsDigit {s : List Char} {l : Int} {p : BitVec 8} (h : Names s l p) :
    startsDigit s = false := by
  cases h with
  | tv => rfl
  | port d => exact d.not_startsDigit _

/-! The language that is asked for. -/

/-- What a token denotes: `tv`; a device, a dot and an unsigned number from 1 to 15; or a
physical address that starts with a digit. -/
inductive Denotes : List Char → Address → Prop where
  | tv : Denotes ['t','v'] { Address.default with logical := cecDeviceTv }
  | port (d : Device) (n : Numeral) (hs : n.sign = .none) (h1 : 1 ≤ n.magnitude)
      (h15 : n.magnitude ≤ 15) : Denotes (d.name ++ '.' :: n.text)
        { Address.default with logical := d.logical, port := BitVec.ofNat 8 n.magnitude }
  | physical (ns : List Numeral) (hns : PhysicalForm ns) (hd : startsDigit (dotted ns) = true)
      (p : PhysicalAddress) (hp : (p.address.toNat : Int) = packing (ns.map Numeral.value)) :
      Denotes (dotted ns) { Address.default with physical := p }

/-- A port that has a sign, or with something behind its digits, and that is still taken. -/
def LoosePort (s : List Char) : Prop :=
  ∃ (d : Device) (n : Numeral) (rest : List Char), s = d.name ++ '.' :: (n.text ++ rest) ∧
    StartsNoDigit rest ∧ n.magnitude < 2 ^ 32 ∧ 1 ≤ n.wrapped (2 ^ 32) ∧
    n.wrapped (2 ^ 32) ≤ 15 ∧ (n.sign ≠ .none ∨ rest ≠ [])

theorem Numeral.wrapped_unsigned {n : Numeral} (hs : n.sign = .none) (size : Nat) :
    n.wrapped size = n.magnitude := by
  rw [Numeral.wrapped,if_neg (by simp [hs])]

theorem Denotes.extract {t : Token} {b : Address} (h : Denotes t.text b) (garbage : Nat)
    {after : List Char} (ha : ∀ c ∈ after.head?, isSpace c = true) :
    extractAddress garbage (.ofChars (t.text ++ after)) .default =
      some (.stoppedAt after,b) := by
  have hword : ∀ {l : Int} {p : BitVec 8}, Names t.text l p →
      extractAddress garbage (.ofChars (t.text ++ after)) .default =
        some (.stoppedAt after,{ Address.default with logical := l, port := p }) := by
    intro l p hnames
    have hread := @extractAddress_asWord garbage [] after (by simp) t ha hnames.not_startsDigit
      .default
    rwa [extractDevice_names hnames] at hread
  obtain ⟨text,hne,hnoSpace⟩ := t
  dsimp only at h hword ⊢
  cases h with
  | tv => exact hword .tv
  | port d n hs h1 h15 =>
    have hwrap := Numeral.wrapped_unsigned hs (2 ^ 32)
    have hnames := Names.port d n [] startsNoDigit_nil (by omega) (by omega) (by omega)
    rw [List.append_nil,hwrap] at hnames
    exact hword hnames
  | physical ns hns hd p hp =>
    have hread := @extractPhysical_accepts [] after (by simp) ⟨dotted ns,hne,hnoSpace⟩ ha
      Address.default.physical ns hns rfl
    rw [List.nil_append] at hread
    have hset : PhysicalAddress.set (store #v[0,0,0,0] 0 (ns.map Numeral.value)) = p := by
      have hstore := set_store (by simpa using hns.atMostFour) (hns.values_inRange)
      exact congrArg PhysicalAddress.mk (BitVec.eq_of_toNat_eq (Int.ofNat.inj (hstore.trans hp.symm)))
    rw [extractAddress_asPhysical garbage ⟨dotted ns,hne,hnoSpace⟩ hd,hread,hset]
    rfl

theorem Device.name_append {d e : Device} {s u : List Char} (h : d.name ++ s = e.name ++ u) :
    d = e ∧ s = u := by
  cases d <;> cases e <;> simp_all [Device.name]

theorem LoosePort.names {s : List Char} (h : LoosePort s) : ∃ l p, Names s l p := by
  obtain ⟨d,n,rest,rfl,hr,hn,h1,h15,-⟩ := h
  exact ⟨_,_,.port d n rest hr hn h1 h15⟩

theorem Names.denotes {s : List Char} {l : Int} {p : BitVec 8} (h : Names s l p)
    (hloose : ¬ LoosePort s) :
    Denotes s { Address.default with logical := l, port := p } := by
  cases h with
  | tv => exact .tv
  | port d n rest hr hn h1 h15 =>
    have hstrict : ¬ (n.sign ≠ .none ∨ rest ≠ []) :=
      fun hbad => hloose ⟨d,n,rest,rfl,hr,hn,h1,h15,hbad⟩
    rw [not_or,not_not,not_not] at hstrict
    obtain ⟨hs,rfl⟩ := hstrict
    rw [Numeral.wrapped_unsigned hs] at h1 h15 ⊢
    rw [List.append_nil]
    exact .port d n hs h1 h15

theorem LoosePort.not_denotes {s : List Char} (h : LoosePort s) (b : Address) :
    ¬ Denotes s b := by
  obtain ⟨d,n,rest,rfl,hr,-,-,-,hloose⟩ := h
  generalize hs : d.name ++ '.' :: (n.text ++ rest) = s
  intro hb
  cases hb with
  | tv =>
    obtain ⟨-,htail⟩ := @Device.name_append d .tv _ [] hs
    simp at htail
  | port e m hm =>
    obtain ⟨-,htail⟩ := Device.name_append hs
    have hport := (List.cons.inj htail).2.trans (List.append_nil m.text).symm
    obtain ⟨rfl,rfl⟩ := Numeral.append_unique hr startsNoDigit_nil hport
    exact hloose.elim (absurd hm) (absurd rfl)
  | physical ns _ hd =>
    rw [← hs,d.not_startsDigit] at hd
    simp at hd

theorem extractAddress_refuses {t : Token} (hden : ¬ ∃ b, Denotes t.text b)
    (hloose : ¬ LoosePort t.text) (garbage : Nat) {after : List Char}
    (ha : ∀ c ∈ after.head?, isSpace c = true) :
    ∃ a, extractAddress garbage (.ofChars (t.text ++ after)) .default =
      some ((IStream.stoppedAt after).setFail,a) := by
  cases hd : startsDigit t.text with
  | true =>
    have hform : ¬ ∃ ns, PhysicalForm ns ∧ t.text = dotted ns := by
      rintro ⟨ns,hns,ht⟩
      have hset := set_store (by simpa using hns.atMostFour) hns.values_inRange
      rw [ht] at hd
      have hb := Denotes.physical ns hns hd _ hset
      rw [← ht] at hb
      exact hden ⟨_,hb⟩
    have hread := @extractPhysical_rejects [] after (by simp) t ha Address.default.physical hform
    rw [List.nil_append] at hread
    rw [extractAddress_asPhysical garbage t hd,hread]
    exact ⟨_,rfl⟩
  | false =>
    have hnames : ∀ l p, ¬ Names t.text l p :=
      fun l p h => hden ⟨_,h.denotes hloose⟩
    have hread := @extractAddress_asWord garbage [] after (by simp) t ha hd .default
    rw [List.nil_append] at hread
    have hfails := extractDevice_fails t.noSpace hnames garbage (.stoppedAt after) .default
    rw [hread]
    exact ⟨_,congrArg some (Prod.ext hfails rfl)⟩

/-- The extraction accepts the language asked for, and gives what the token denotes, exactly
on the tokens whose port is not loose. -/
theorem extractAddress_denotes_iff (garbage : Nat) (t : Token) {after : List Char}
    (ha : ∀ c ∈ after.head?, isSpace c = true) :
    (∃ input a, extractAddress garbage (.ofChars (t.text ++ after)) .default = some (input,a) ∧
      (input.fail = false ↔ ∃ b, Denotes t.text b) ∧ (input.fail = false → Denotes t.text a)) ↔
    ¬ LoosePort t.text := by
  constructor
  · rintro ⟨input,a,hread,hiff,-⟩ hloose
    obtain ⟨l,p,hnames⟩ := hloose.names
    have hword := @extractAddress_asWord garbage [] after (by simp) t ha hnames.not_startsDigit
      .default
    rw [extractDevice_names hnames,List.nil_append,hread] at hword
    obtain ⟨rfl,-⟩ := Prod.mk.inj (Option.some.inj hword)
    obtain ⟨b,hb⟩ := hiff.mp rfl
    exact hloose.not_denotes b hb
  · intro hloose
    by_cases hden : ∃ b, Denotes t.text b
    · obtain ⟨b,hb⟩ := hden
      exact ⟨_,b,hb.extract garbage ha,⟨fun _ => ⟨b,hb⟩,fun _ => rfl⟩,fun _ => hb⟩
    · obtain ⟨a,hread⟩ := extractAddress_refuses hden hloose garbage ha
      refine ⟨_,a,hread,⟨fun hok => ?_,fun h => absurd h hden⟩,fun hok => ?_⟩
      · simp [IStream.setFail] at hok
      · simp [IStream.setFail] at hok

theorem extractAddress_denotes_av :
    ∃ input a, extractAddress 7 (.ofChars (['a','v','.','3'] ++ ['\n'])) .default =
        some (input,a) ∧ input.fail = false ∧ Denotes ['a','v','.','3'] a := by
  have hdenotes : Denotes ['a','v','.','3']
      { Address.default with logical := Device.av.logical, port := 3 } :=
    .port .av ⟨.none,['3'],by simp,by simp⟩ rfl (by decide) (by decide)
  obtain ⟨input,a,hread,hiff,ha⟩ :=
    (@extractAddress_denotes_iff 7 ⟨['a','v','.','3'],by decide,by simp [isSpace]⟩ ['\n']
      (by simp [isSpace])).mpr fun hloose => hloose.not_denotes _ hdenotes
  have hok := hiff.mpr ⟨_,hdenotes⟩
  exact ⟨input,a,hread,hok,ha hok⟩

/-- `tv.+3` is taken, although its port has a sign. -/
theorem loosePort_taken :
    ¬ ∀ (garbage : Nat) (t : Token) (after : List Char),
      (∀ c ∈ after.head?, isSpace c = true) →
      ∃ input a, extractAddress garbage (.ofChars (t.text ++ after)) .default =
          some (input,a) ∧
        (input.fail = false ↔ ∃ b, Denotes t.text b) ∧
        (input.fail = false → Denotes t.text a) := by
  intro h
  obtain ⟨input,a,hread,-,hdenotes⟩ :=
    h 0 ⟨['t','v','.','+','3'],by decide,by simp [isSpace]⟩ [] (by simp)
  have htaken : extractAddress 0 (.ofChars ['t','v','.','+','3']) .default =
      some (.stoppedAt [],⟨⟨0⟩,cecDeviceTv,3⟩) := by decide
  dsimp only at hread hdenotes
  rw [List.append_nil,htaken] at hread
  obtain ⟨rfl,rfl⟩ := Prod.mk.inj (Option.some.inj hread)
  have hloose : LoosePort ['t','v','.','+','3'] :=
    ⟨.tv,⟨.plus,['3'],by decide,by simp⟩,[],rfl,startsNoDigit_nil,by decide,by decide,by decide,
      .inl (by decide)⟩
  exact hloose.not_denotes _ (hdenotes rfl)

end Ceclircd
