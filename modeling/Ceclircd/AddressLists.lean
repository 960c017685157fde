import Ceclircd.AddressOutcome
import Ceclircd.TokenLists
set_option autoImplicit false

/-! Lists of addresses in one text: physical addresses as they are printed, and accepted
tokens of all shapes. -/

namespace Ceclircd
open InputStream

/-! Physical addresses. -/

theorem extractPhysical_blank {s : IStream} (h : ∀ c ∈ s.rest, isSpace c = true)
    (a : PhysicalAddress) : ∃ t, extractPhysical s a = some (t,a) ∧ t.fail = true := by
  have hword : s.extractString.2 = [] := by
    rw [IStream.extractString_firstWord,IStream.firstWord,List.dropWhile_eq_nil_iff.mpr h]
    simp
  have hnone : ¬ ∃ (n : Numeral) (rest : List Char), [] = n.text ++ rest ∧ StartsNoDigit rest ∧
      0 ≤ n.value ∧ n.value ≤ 15 := by
    rintro ⟨n,rest,hnil,-⟩
    simp [Numeral.text,n.nonempty] at hnil
  obtain ⟨u,hu,hfailed⟩ :=
    @readComponents_rejects 3 [] #v[0,0,0,0] 0 false (by simp) (by decide) hnone
  refine ⟨s.extractString.1.setFail,?_,rfl⟩
  unfold extractPhysical
  dsimp only
  rw [hword,hu]
  simp [hfailed,IStream.setFail]

/-- Four components, with zeros for those that are missing. -/
def canonical (ns : List Numeral) : List Numeral :=
  [0,1,2,3].map fun i => .ofNat ((ns.map Numeral.value).getD i 0).toNat

theorem getD_inRange {vs : List Int} (h : ∀ v ∈ vs, 0 ≤ v ∧ v ≤ 15) (i : Nat) :
    0 ≤ vs.getD i 0 ∧ vs.getD i 0 ≤ 15 := by
  rw [List.getD_eq_getElem?_getD]
  cases hv : vs[i]? with
  | none => decide
  | some v => exact h v (List.mem_of_getElem? hv)

theorem components_eq_canonical {ns : List Numeral} (h : PhysicalForm ns) {a : PhysicalAddress}
    (ha : (a.address.toNat : Int) = packing (ns.map Numeral.value)) :
    components a = canonical ns := by
  have h0 := getD_inRange h.values_inRange 0
  have h1 := getD_inRange h.values_inRange 1
  have h2 := getD_inRange h.values_inRange 2
  have h3 := getD_inRange h.values_inRange 3
  rw [packing] at ha
  have e0 : a.address.toNat / 4096 % 16 = ((ns.map Numeral.value).getD 0 0).toNat := by omega
  have e1 : a.address.toNat / 256 % 16 = ((ns.map Numeral.value).getD 1 0).toNat := by omega
  have e2 : a.address.toNat / 16 % 16 = ((ns.map Numeral.value).getD 2 0).toNat := by omega
  have e3 : a.address.toNat % 16 = ((ns.map Numeral.value).getD 3 0).toNat := by omega
  rw [components,e0,e1,e2,e3]
  rfl

/-- A printed list is read back whole, and then nothing more. What is printed of any accepted
token is its canonical form, which gives the same address. -/
theorem physicalAddresses_readBack {es : List (Entry PhysicalAddress PhysicalAddress)}
    (h : Separated es) (hprint : ∀ e ∈ es, e.token.text = printPhysical e.value)
    {tail : List Char} (ht : ∀ c ∈ tail, isSpace c = true) :
    (∃ s, extractAll extractPhysical (.ofChars (textOf es tail)) (es.map Entry.before) =
        some (s,es.map Entry.value) ∧
      ∀ a, ∃ t, extractPhysical s a = some (t,a) ∧ t.fail = true) ∧
    ∀ (t : Token) (prior a : PhysicalAddress) (s : IStream),
      extractPhysical (.ofChars t.text) prior = some (s,a) → s.fail = false →
      ∃ ns, PhysicalForm ns ∧ t.text = dotted ns ∧ printPhysical a = dotted (canonical ns) ∧
        ∀ prior', extractPhysical (.ofChars (printPhysical a)) prior' =
          some (.stoppedAt [],a) := by
  constructor
  · have hread := extractAll_textOf h ht fun e he after ha => by
      rw [hprint e he]
      exact extractPhysical_printed (h.blank e he) ha e.value e.before
    refine ⟨_,hread,fun a => extractPhysical_blank ?_ a⟩
    unfold IStream.behind
    split <;> exact ht
  · intro t prior a s hs hok
    obtain ⟨s',a',hs',hiff,hvalue,-⟩ := @extractPhysical_token [] [] (by simp) t (by simp) prior
    rw [List.nil_append,List.append_nil,hs] at hs'
    obtain ⟨rfl,rfl⟩ := Prod.mk.inj (Option.some.inj hs')
    obtain ⟨ns,hns,htext⟩ := hiff.mp hok
    have hcanonical := components_eq_canonical hns (hvalue ns hns htext)
    refine ⟨ns,hns,htext,by rw [printPhysical_eq,hcanonical],fun prior' => ?_⟩
    have hread := @extractPhysical_printed [] [] (by simp) (by simp) a prior'
    rwa [List.nil_append,List.append_nil] at hread

theorem physicalAddresses_readBack_two :
    ∃ s, extractAll extractPhysical (.ofChars ['1','.','0','.','0','.','0','\n',' ',
        '2','.','1','5','.','0','.','3','\n']) [⟨0⟩,⟨7⟩] =
        some (s,[⟨0x1000#16⟩,⟨0x2F03#16⟩]) ∧
      ∀ a, ∃ t, extractPhysical s a = some (t,a) ∧ t.fail = true :=
  (@physicalAddresses_readBack
    [⟨[],⟨['1','.','0','.','0','.','0'],by decide,by simp [isSpace]⟩,⟨0⟩,⟨0x1000#16⟩⟩,
      ⟨['\n',' '],⟨['2','.','1','5','.','0','.','3'],by decide,by simp [isSpace]⟩,⟨7⟩,
        ⟨0x2F03#16⟩⟩]
    ⟨by simp [isSpace],by simp⟩ (by simp; decide) ['\n'] (by simp [isSpace])).1

/-! Tokens of all shapes. -/

theorem accepted_alone {garbage : Nat} {t : Token} {s : IStream} {a : Address}
    (h : extractAddress garbage (.ofChars t.text) .default = some (s,a)) (hok : s.fail = false) :
    (startsDigit t.text = true ∧ ∃ ns, PhysicalForm ns ∧ t.text = dotted ns ∧
      a = { Address.default with physical := .set (store #v[0,0,0,0] 0 (ns.map Numeral.value)) }) ∨
    ∃ l p, Names t.text l p ∧ a = { Address.default with logical := l, port := p } := by
  cases hd : startsDigit t.text with
  | true =>
    left
    have hphysical := @extractAddress_asPhysical garbage t [] hd .default
    rw [List.append_nil,h] at hphysical
    by_cases hform : ∃ ns, PhysicalForm ns ∧ t.text = dotted ns
    · obtain ⟨ns,hns,ht⟩ := hform
      rw [extractPhysical_alone t _ hns ht] at hphysical
      exact ⟨rfl,ns,hns,ht,(Prod.mk.inj (Option.some.inj hphysical)).2⟩
    · have hread := @extractPhysical_rejects [] [] (by simp) t (by simp) Address.default.physical
        hform
      rw [List.nil_append,List.append_nil] at hread
      rw [hread] at hphysical
      obtain ⟨rfl,-⟩ := Prod.mk.inj (Option.some.inj hphysical)
      simp [IStream.setFail] at hok
  | false =>
    right
    obtain ⟨s',f,hout,hread⟩ := extractAddress_outcome (.ofChars t.text)
    rw [hread] at h
    obtain ⟨rfl,rfl⟩ := Prod.mk.inj (Option.some.inj h)
    cases hout with
    | physical found _ hdigit => exact absurd (hdigit.symm.trans hd) (by decide)
    | named hnames => exact ⟨_,_,IStream.firstWord_token t ▸ hnames,rfl⟩
    | leftover d w _ _ hfail => simp [hfail] at hok
    | other _ hfail => simp [hfail] at hok

theorem extractAddress_inPlace {ws after : List Char} (hws : ∀ c ∈ ws, isSpace c = true)
    {garbage : Nat} {t : Token} {s : IStream} {a : Address}
    (h : extractAddress garbage (.ofChars t.text) .default = some (s,a)) (hok : s.fail = false)
    (ha : ∀ c ∈ after.head?, isSpace c = true) (hfront : startsDigit t.text = true → ws = [])
    (garbage' : Nat) :
    extractAddress garbage' (.ofChars (ws ++ (t.text ++ after))) .default =
      some (.stoppedAt after,a) := by
  rcases accepted_alone h hok with ⟨hd,ns,hns,ht,rfl⟩ | ⟨l,p,hnames,rfl⟩
  · rw [hfront hd,List.nil_append,extractAddress_asPhysical garbage' t hd]
    have hread := @extractPhysical_accepts [] after (by simp) t ha Address.default.physical ns hns ht
    rw [List.nil_append] at hread
    rw [hread]
    rfl
  · have hword : startsDigit (ws ++ t.text) = false := by
      by_cases hnil : ws = []
      · rw [hnil]
        exact hnames.not_startsDigit
      · exact startsDigit_gap hws hnil t.text
    rw [extractAddress_asWord garbage' hws t ha hword,extractDevice_names hnames]

/-- `peek` sees the whitespace, so the token is read as a word, and no device starts so. -/
theorem extractAddress_behindGap {ws after : List Char} (hws : ∀ c ∈ ws, isSpace c = true)
    (hne : ws ≠ []) {t : Token} (hd : startsDigit t.text = true)
    (ha : ∀ c ∈ after.head?, isSpace c = true) (garbage : Nat) (a : Address) :
    extractAddress garbage (.ofChars (ws ++ (t.text ++ after))) a =
      some ((IStream.stoppedAt after).setFail,a) := by
  have hother : ∀ (d : Device) (tail : List Char), t.text ≠ d.name ++ tail := by
    intro d tail ht
    rw [ht,d.not_startsDigit] at hd
    simp at hd
  rw [extractAddress_asWord garbage hws t ha (startsDigit_gap hws hne t.text),
    extractDevice_other _ _ _ hother]

/-- A list of accepted tokens is read as the tokens are alone exactly when none of those that
start with a digit has whitespace in front. -/
theorem addresses_inOrder_iff {es : List (Entry Nat Address)} (h : Separated es)
    (halone : ∀ e ∈ es, ∃ garbage s,
      extractAddress garbage (.ofChars e.token.text) .default = some (s,e.value) ∧
        s.fail = false)
    {tail : List Char} (ht : ∀ c ∈ tail, isSpace c = true) :
    (∃ s, extractAll (fun s garbage => extractAddress garbage s .default)
      (.ofChars (textOf es tail)) (es.map Entry.before) = some (s,es.map Entry.value)) ↔
    ∀ e ∈ es, startsDigit e.token.text = true → e.gap = [] := by
  have hread : ∀ e ∈ es, (startsDigit e.token.text = true → e.gap = []) →
      ∀ after, (∀ c ∈ after.head?, isSpace c = true) →
        extractAddress e.before (.ofChars (e.gap ++ (e.token.text ++ after))) .default =
          some (.stoppedAt after,e.value) := by
    intro e he hfront after ha
    obtain ⟨garbage,s,hs,hok⟩ := halone e he
    exact extractAddress_inPlace (h.blank e he) hs hok ha hfront e.before
  constructor
  · rintro ⟨s,hs⟩
    by_contra hbad
    have hrefuse : ∀ e ∈ es, ¬ (startsDigit e.token.text = true → e.gap = []) →
        ∀ after, (∀ c ∈ after.head?, isSpace c = true) → ∃ t b,
          extractAddress e.before (.ofChars (e.gap ++ (e.token.text ++ after))) .default =
            some (t,b) ∧ t.fail = true := by
      intro e he hgap after ha
      rw [Classical.not_imp] at hgap
      exact ⟨_,_,extractAddress_behindGap (h.blank e he) hgap.2 hgap.1 ha _ _,rfl⟩
    have hsome : ∃ e ∈ es, ¬ (startsDigit e.token.text = true → e.gap = []) := by
      by_contra hno
      exact hbad fun e he => by_contra fun hgap => hno ⟨e,he,hgap⟩
    have hnone := @extractAll_textOf_fails _ _ (fun s garbage => extractAddress garbage s .default)
      es tail h ht (fun e => startsDigit e.token.text = true → e.gap = []) hread hrefuse hsome
    rw [hnone] at hs
    simp at hs
  · intro hall
    exact ⟨_,extractAll_textOf h ht fun e he => hread e he (hall e he)⟩

theorem addresses_inOrder_three :
    (∃ s, extractAll (fun s garbage => extractAddress garbage s .default)
      (.ofChars ['2','.','1',' ','t','v','\t','a','v','.','4']) [0,3,5] =
        some (s,[⟨⟨0x2100#16⟩,cecDeviceUnknown,0⟩,⟨⟨0⟩,cecDeviceTv,0⟩,
          ⟨⟨0⟩,cecDeviceAudioSystem,4⟩])) :=
  (@addresses_inOrder_iff
    [⟨[],⟨['2','.','1'],by decide,by simp [isSpace]⟩,0,⟨⟨0x2100#16⟩,cecDeviceUnknown,0⟩⟩,
      ⟨[' '],⟨['t','v'],by decide,by simp [isSpace]⟩,3,⟨⟨0⟩,cecDeviceTv,0⟩⟩,
      ⟨['\t'],⟨['a','v','.','4'],by decide,by simp [isSpace]⟩,5,⟨⟨0⟩,cecDeviceAudioSystem,4⟩⟩]
    ⟨by simp [isSpace],by simp⟩ (by
      simp only [List.mem_cons,List.not_mem_nil,or_false,forall_eq_or_imp,forall_eq]
      exact ⟨⟨0,.stoppedAt [],by decide,rfl⟩,⟨0,.stoppedAt [],by decide,rfl⟩,
        ⟨0,.stoppedAt [],by decide,rfl⟩⟩) [] (by simp)).mpr
    (by simp [startsDigit])

theorem second_token_refused :
    ¬ ∀ (es : List (Entry Nat Address)) (tail : List Char), Separated es →
      (∀ e ∈ es, ∃ garbage s,
        extractAddress garbage (.ofChars e.token.text) .default = some (s,e.value) ∧
          s.fail = false) → (∀ c ∈ tail, isSpace c = true) →
      ∃ s, extractAll (fun s garbage => extractAddress garbage s .default)
        (.ofChars (textOf es tail)) (es.map Entry.before) = some (s,es.map Entry.value) := by
  intro h
  obtain ⟨s,hs⟩ := h
    [⟨[],⟨['t','v'],by decide,by simp [isSpace]⟩,0,⟨⟨0⟩,cecDeviceTv,0⟩⟩,
      ⟨[' '],⟨['1','.','0'],by decide,by simp [isSpace]⟩,0,⟨⟨0x1000#16⟩,cecDeviceUnknown,0⟩⟩] []
    ⟨by simp [isSpace],by simp⟩ (by
      simp only [List.mem_cons,List.not_mem_nil,or_false,forall_eq_or_imp,forall_eq]
      exact ⟨⟨0,.stoppedAt [],by decide,rfl⟩,⟨0,.stoppedAt [],by decide,rfl⟩⟩) (by simp)
  have hnone : extractAll (fun s garbage => extractAddress garbage s .default)
      (.ofChars ['t','v',' ','1','.','0']) [0,0] = none := by decide
  exact absurd (hnone.symm.trans hs) (by simp)

end Ceclircd
