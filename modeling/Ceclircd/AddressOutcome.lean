import Ceclircd.AddressTokens
import Ceclircd.CecConfiguration
set_option autoImplicit false

/-! How an extraction of an `HDMI::address` ends, from any stream: what a failed one leaves
behind, and what a successful one keeps of the address that was there before. -/

namespace Ceclircd
open InputStream

theorem startsDigit_firstWord {input : IStream} (hgood : input.good = true)
    (hd : startsDigit input.rest = true) : startsDigit input.firstWord = true := by
  obtain ⟨c,hc,hdigit⟩ := (Option.any_eq_true _ _).mp hd
  rw [startsDigit,IStream.firstWord_head hgood hc (isSpace_of_isDigit hdigit)]
  exact hdigit

inductive Outcome (input : IStream) : IStream → (Nat → Address → Address) → Prop where
  | physical {input' : IStream} (found : Option PhysicalAddress)
      (hgood : input.good = true) (hd : startsDigit input.rest = true)
      (hfail : input'.fail = !found.isSome) :
      Outcome input input' fun _ a => { a with physical := found.getD a.physical }
  | named {input' : IStream} {l : Int} {p : BitVec 8} (h : Names input.firstWord l p)
      (hok : input'.fail = false) :
      Outcome input input' fun _ a => { a with logical := l, port := p }
  | leftover {input' : IStream} (d : Device) (s : List Char) (hs : input.firstWord = d.name ++ s)
      (h : ∀ l p, ¬ Names input.firstWord l p) (hfail : input'.fail = true) :
      Outcome input input' fun garbage a => d.leftover garbage a s
  | other {input' : IStream} (hs : ∀ (d : Device) (s : List Char), input.firstWord ≠ d.name ++ s)
      (hfail : input'.fail = true) : Outcome input input' fun _ a => a

theorem extractAddress_outcome (input : IStream) :
    ∃ input' f, Outcome input input' f ∧
      ∀ garbage a, extractAddress garbage input a = some (input',f garbage a) := by
  by_cases hphysical : input.good = true ∧ startsDigit input.rest = true
  · obtain ⟨hgood,hd⟩ := hphysical
    obtain ⟨input',found,hread,hfail⟩ := extractPhysical_total input
    refine ⟨input',_,.physical found hgood hd hfail,fun garbage a => ?_⟩
    rw [extractAddress_physical garbage hgood hd,hread]
    rfl
  · have hword : input.good = true → startsDigit input.rest = false :=
      fun hgood => Bool.eq_false_iff.mpr fun hd => hphysical ⟨hgood,hd⟩
    have hread := fun garbage a => extractAddress_firstWord garbage hword a
    by_cases hnames : ∃ l p, Names input.firstWord l p
    · obtain ⟨l,p,h⟩ := hnames
      have hok : input.peek.1.extractString.1.fail = false := by
        apply IStream.extractString_ok
        rw [IStream.extractString_firstWord,IStream.firstWord_peek]
        exact h.nonempty
      refine ⟨_,_,.named h hok,fun garbage a => ?_⟩
      rw [hread,extractDevice_names h]
    · have hnone : ∀ l p, ¬ Names input.firstWord l p := fun l p h => hnames ⟨l,p,h⟩
      by_cases hdevice : ∃ (d : Device) (s : List Char), input.firstWord = d.name ++ s
      · obtain ⟨d,s,hs⟩ := hdevice
        have hnoSpace : ∀ c ∈ s, isSpace c = false :=
          fun c hc => input.firstWord_noSpace c (by rw [hs]; exact List.mem_append_right _ hc)
        refine ⟨input.peek.1.extractString.1.setFail,_,.leftover d s hs hnone rfl,
          fun garbage a => ?_⟩
        rw [hs] at hnone
        rw [hread,hs,extractDevice_rejects hnoSpace hnone]
      · have hs : ∀ (d : Device) (s : List Char), input.firstWord ≠ d.name ++ s :=
          fun d s h => hdevice ⟨d,s,h⟩
        refine ⟨input.peek.1.extractString.1.setFail,_,.other hs rfl,fun garbage a => ?_⟩
        rw [hread,extractDevice_other _ _ _ hs]

/-! What a failed extraction leaves. -/

/-- The number behind the dot, as far as `unsigned` has it: also of a port that is refused. -/
inductive PortLeft (garbage : Nat) : List Char → Nat → Prop where
  | missing : PortLeft garbage [] garbage
  | noNumeral {cs : List Char} (hne : cs ≠ [])
      (h : ∀ (n : Numeral) (rest : List Char), StartsNoDigit rest → cs ≠ n.text ++ rest) :
      PortLeft garbage cs 0
  | tooLarge {n : Numeral} {rest : List Char} (hr : StartsNoDigit rest)
      (hn : 2 ^ 32 ≤ n.magnitude) : PortLeft garbage (n.text ++ rest) (2 ^ 32 - 1)
  | numeral {n : Numeral} {rest : List Char} (hr : StartsNoDigit rest)
      (hn : n.magnitude < 2 ^ 32) : PortLeft garbage (n.text ++ rest) (n.wrapped (2 ^ 32))

theorem PortLeft.eq_portRead {garbage : Nat} {cs : List Char} {v : Nat}
    (hcs : ∀ c ∈ cs, isSpace c = false) (h : PortLeft garbage cs v) : v = portRead garbage cs := by
  cases h with
  | missing => rfl
  | noNumeral hne h =>
    obtain ⟨c,cs,rfl⟩ := List.exists_cons_of_ne_nil hne
    rw [portRead,IStream.extractUnsigned_noNumeral _ (hcs c List.mem_cons_self) h]
    rfl
  | tooLarge hr hn =>
    rw [portRead,IStream.extractUnsigned_tooLarge hr hn]
    rfl
  | numeral hr hn => exact (portRead_numeral garbage hr hn).symm

theorem portLeft_portRead (garbage : Nat) {cs : List Char} (hcs : ∀ c ∈ cs, isSpace c = false) :
    PortLeft garbage cs (portRead garbage cs) := by
  by_cases hne : cs = []
  · subst hne
    exact .missing
  · rcases hscan : Numeral.scan cs with ⟨found,rest⟩
    cases found with
    | some n =>
      obtain ⟨rfl,hr⟩ := Numeral.eq_of_scan hscan
      by_cases hn : n.magnitude < 2 ^ 32
      · exact portRead_numeral garbage hr hn ▸ .numeral hr hn
      · have hleft := @PortLeft.tooLarge garbage n rest hr (by omega)
        rwa [hleft.eq_portRead hcs] at hleft
    | none =>
      have h : ∀ (n : Numeral) (tail : List Char), StartsNoDigit tail → cs ≠ n.text ++ tail := by
        rintro n tail hr rfl
        rw [n.scan_append hr] at hscan
        simp at hscan
      have hleft := @PortLeft.noNumeral garbage cs hne h
      rwa [hleft.eq_portRead hcs] at hleft

theorem Device.leftover_eq_iff {d : Device} {garbage : Nat} {a : Address} {s : List Char}
    (hs : ∀ c ∈ s, isSpace c = false) : d.leftover garbage a s = a ↔
      a.logical = d.logical ∧
        ∀ c cs v, s = c :: cs → PortLeft garbage cs v → a.port = BitVec.ofNat 8 v := by
  obtain ⟨physical,logical,port⟩ := a
  cases s with
  | nil => simp [Device.leftover,eq_comm]
  | cons c cs =>
    have hcs : ∀ x ∈ cs, isSpace x = false := fun x hx => hs x (List.mem_cons_of_mem _ hx)
    simp only [Device.leftover,Address.mk.injEq,true_and]
    constructor
    · rintro ⟨hl,hp⟩
      refine ⟨hl.symm,?_⟩
      rintro _ _ v ⟨⟩ hv
      rw [hv.eq_portRead hcs]
      exact hp.symm
    · rintro ⟨hl,hp⟩
      exact ⟨hl.symm,(hp c cs _ rfl (portLeft_portRead garbage hcs)).symm⟩

/-- A failed extraction leaves the address as it was exactly when a refused word that starts
with a device's name finds its device, and the number it reads, in the address already. -/
theorem extractAddress_keeps_iff (garbage : Nat) (input : IStream) (a : Address) :
    (∃ input' a', extractAddress garbage input a = some (input',a') ∧
      (input'.fail = true → a' = a)) ↔
    ∀ (d : Device) (s : List Char), input.firstWord = d.name ++ s →
      (∀ l p, ¬ Names input.firstWord l p) → a.logical = d.logical ∧
        ∀ c cs v, s = c :: cs → PortLeft garbage cs v → a.port = BitVec.ofNat 8 v := by
  obtain ⟨input',f,hout,hread⟩ := extractAddress_outcome input
  have hkeeps : (∃ input' a', extractAddress garbage input a = some (input',a') ∧
      (input'.fail = true → a' = a)) ↔ (input'.fail = true → f garbage a = a) := by
    rw [hread]
    simp
  rw [hkeeps]
  cases hout with
  | physical found hgood hd hfail =>
    refine iff_of_true (fun hf => ?_) fun d s hs => ?_
    · cases found with
      | none => rfl
      | some p => simp [hfail] at hf
    · have hword := startsDigit_firstWord hgood hd
      rw [hs,d.not_startsDigit] at hword
      simp at hword
  | named h hok =>
    exact iff_of_true (fun hf => by simp [hok] at hf) fun d s _ hnone => absurd h (hnone _ _)
  | leftover d s hs hnone hfail =>
    have hnoSpace : ∀ c ∈ s, isSpace c = false :=
      fun c hc => input.firstWord_noSpace c (by rw [hs]; exact List.mem_append_right _ hc)
    rw [d.leftover_eq_iff hnoSpace]
    constructor
    · intro hkept e u hu _
      obtain ⟨rfl,rfl⟩ := Device.name_append (hs.symm.trans hu)
      exact hkept hfail
    · exact fun hall _ => hall d s hs hnone
  | other hs hfail => exact iff_of_true (fun _ => rfl) fun d s hword => absurd hword (hs d s)

theorem refused_av_assigns :
    ¬ ∀ (garbage : Nat) (input : IStream) (a : Address), ∃ input' a',
      extractAddress garbage input a = some (input',a') ∧ (input'.fail = true → a' = a) := by
  intro h
  obtain ⟨input',a',hread,hkeeps⟩ := h 0 (.ofChars ['a','v']) .default
  have hav : extractAddress 0 (.ofChars ['a','v']) .default =
      some (⟨[],true,true⟩,⟨⟨0⟩,cecDeviceAudioSystem,0⟩) := by decide
  rw [hav] at hread
  obtain ⟨rfl,rfl⟩ := Prod.mk.inj (Option.some.inj hread)
  have hkept := congrArg Address.logical (hkeeps rfl)
  exact absurd hkept (by decide)

/-! What a successful extraction keeps. -/

def setTargetAddress (config : CecConfiguration) (address : Address) : CecConfiguration :=
  { config with
    iPhysicalAddress := address.physical.address
    baseDevice := address.logical
    iHDMIPort := address.port }

theorem Names.startsDigit_rest {input : IStream} {l : Int} {p : BitVec 8}
    (h : Names input.firstWord l p) : startsDigit input.rest = false := by
  have hgood := IStream.good_of_firstWord h.nonempty
  cases hd : startsDigit input.rest with
  | false => rfl
  | true =>
    have hword := startsDigit_firstWord hgood hd
    rw [h.not_startsDigit] at hword
    simp at hword

/-- Over another address the same input succeeds too, with the same result exactly when the
two addresses agree in what this input does not assign. -/
theorem extractAddress_sameTarget_iff {garbage : Nat} {input input' : IStream} {p a : Address}
    (h : extractAddress garbage input p = some (input',a)) (hok : input'.fail = false)
    (garbage' : Nat) (p' : Address) :
    (∃ a', extractAddress garbage' input p' = some (input',a') ∧ a' = a ∧
      (∀ config, setTargetAddress config a' = setTargetAddress config a) ∧
      printAddress a' = printAddress a) ↔
    if startsDigit input.rest then p'.logical = p.logical ∧ p'.port = p.port
    else p'.physical = p.physical := by
  obtain ⟨mid,f,hout,hread⟩ := extractAddress_outcome input
  rw [hread] at h
  obtain ⟨rfl,rfl⟩ := Prod.mk.inj (Option.some.inj h)
  have hsame : (∃ a', extractAddress garbage' input p' = some (mid,a') ∧ a' = f garbage p ∧
      (∀ config, setTargetAddress config a' = setTargetAddress config (f garbage p)) ∧
      printAddress a' = printAddress (f garbage p)) ↔ f garbage' p' = f garbage p := by
    rw [hread]
    constructor
    · rintro ⟨a',ha',heq,-⟩
      rw [← heq]
      exact (Prod.mk.inj (Option.some.inj ha')).2
    · exact fun heq => ⟨_,rfl,heq,fun config => by rw [heq],by rw [heq]⟩
  rw [hsame]
  cases hout with
  | physical found hgood hd hfail =>
    cases found with
    | none => simp [hfail] at hok
    | some q => simp [hd,Address.mk.injEq]
  | named hnames _ => simp [hnames.startsDigit_rest,Address.mk.injEq]
  | leftover d s hs hnone hfail => simp [hfail] at hok
  | other hs hfail => simp [hfail] at hok

theorem extractAddress_sameTarget_tv :
    ∃ a', extractAddress 9 (.ofChars ['t','v']) ⟨⟨0x2000#16⟩,cecDeviceAudioSystem,4⟩ =
        some (.stoppedAt [],a') ∧ a' = ⟨⟨0x2000#16⟩,cecDeviceTv,0⟩ ∧
      (∀ config, setTargetAddress config a' =
        setTargetAddress config ⟨⟨0x2000#16⟩,cecDeviceTv,0⟩) ∧
      printAddress a' = printAddress ⟨⟨0x2000#16⟩,cecDeviceTv,0⟩ :=
  (@extractAddress_sameTarget_iff 0 (.ofChars ['t','v']) (.stoppedAt [])
    ⟨⟨0x2000#16⟩,cecDeviceUnknown,0⟩ ⟨⟨0x2000#16⟩,cecDeviceTv,0⟩ (by decide) rfl 9
    ⟨⟨0x2000#16⟩,cecDeviceAudioSystem,4⟩).mpr (by decide)

/-- `1.0.0.0` read over an address of the television is still the television. -/
theorem earlier_token_decides :
    ¬ ∀ (garbage garbage' : Nat) (input input' : IStream) (p p' a : Address),
      extractAddress garbage input p = some (input',a) → input'.fail = false →
      ∃ a', extractAddress garbage' input p' = some (input',a') ∧ a' = a ∧
        (∀ config, setTargetAddress config a' = setTargetAddress config a) ∧
        printAddress a' = printAddress a := by
  intro h
  obtain ⟨a',hread,heq,-⟩ := h 0 0 (.ofChars ['1','.','0','.','0','.','0']) ⟨[],true,false⟩
    .default ⟨⟨0⟩,cecDeviceTv,0⟩ ⟨⟨0x1000#16⟩,cecDeviceUnknown,0⟩ (by decide) rfl
  have htv : extractAddress 0 (.ofChars ['1','.','0','.','0','.','0']) ⟨⟨0⟩,cecDeviceTv,0⟩ =
      some (⟨[],true,false⟩,⟨⟨0x1000#16⟩,cecDeviceTv,0⟩) := by decide
  rw [htv] at hread
  obtain rfl := (Prod.mk.inj (Option.some.inj hread)).2
  exact absurd (congrArg Address.logical heq) (by decide)

end Ceclircd
