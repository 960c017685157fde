import Ceclircd.InputStream
import Mathlib.Data.List.Forall2
import Mathlib.Data.Nat.Bitwise
set_option autoImplicit false

/-! `HDMI::physical_address` and its extraction from a stream: which tokens are accepted,
and the address that each gives. -/

namespace Ceclircd
open InputStream

structure PhysicalAddress where
  address : BitVec 16
  deriving DecidableEq, Repr

/-- `operator[]`; `address` is promoted to an `int` that is not negative. -/
def PhysicalAddress.get (a : PhysicalAddress) (x : BitVec 32) : BitVec 32 :=
  (a.address.setWidth 32 >>> ((3#32 &&& ~~~x) * 4#32)) &&& 15#32

def PhysicalAddress.set (val : Vector Int 4) : PhysicalAddress :=
  ⟨((BitVec.ofInt 32 val[0] &&& 15#32) <<< 12 ||| (BitVec.ofInt 32 val[1] &&& 15#32) <<< 8 |||
    (BitVec.ofInt 32 val[2] &&& 15#32) <<< 4 ||| (BitVec.ofInt 32 val[3] &&& 15#32)).setWidth 16⟩

structure Components where
  ss : IStream
  val : Vector Int 4
  len : Nat
  failed : Bool
  deriving DecidableEq, Repr

/-- `ss >> val[len]`, and what `val[len]` is then. -/
def Components.extract (s : Components) (h : s.len < 4) : Components × Int :=
  match s.ss.extractInt (-2 ^ 31) (2 ^ 31 - 1) with
  | (ss,some v) => ({ s with ss, val := s.val.set s.len v },v)
  | (ss,none) => ({ s with ss },s.val[s.len])

/-- The `switch` on `ss.peek()`: its `break` does not leave the loop. -/
def Components.separator (s : Components) : Components :=
  match s.ss.peek with
  | (ss,none) => { s with ss }
  | (ss,some '.') => { s with ss := ss.ignore }
  | (ss,some _) => { s with ss, failed := true }

/-- The `do` loop. `none` is an index outside `val`, or more passes than `fuel`. -/
def readComponents : Nat → Components → Option Components
  | 0, _ => none
  | fuel + 1, s =>
    if h : s.len < 4 then
      let (s,v) := s.extract h
      if s.ss.fail ∨ v < 0 ∨ v > 15 then some { s with failed := true }
      else
        let s := s.separator
        -- `!ss.eof() && (++len < 4)` counts only when the first half holds
        if s.ss.eof then some s
        else if s.len + 1 < 4 then readComponents fuel { s with len := s.len + 1 }
        else some { s with len := s.len + 1 }
    else none

/-- `operator>>(std::istream &, HDMI::physical_address &)` -/
def extractPhysical (input : IStream) (address : PhysicalAddress) :
    Option (IStream × PhysicalAddress) := do
  let (input,s) := input.extractString
  let t ← readComponents 4 ⟨.ofChars s,#v[0,0,0,0],0,false⟩
  let input := if t.failed then input.setFail else input
  if t.len = 4 then some (input.setFail,address)
  else if !input.fail then some (input,.set t.val)
  else some (input,address)

/-! Numerals with a dot between any two. -/

def dotted (ns : List Numeral) : List Char := ['.'].intercalate (ns.map Numeral.text)

structure PhysicalForm (ns : List Numeral) : Prop where
  nonempty : 1 ≤ ns.length
  atMostFour : ns.length ≤ 4
  inRange : ∀ n ∈ ns, 0 ≤ n.value ∧ n.value ≤ 15

theorem PhysicalForm.values_inRange {ns : List Numeral} (h : PhysicalForm ns) :
    ∀ v ∈ ns.map Numeral.value, 0 ≤ v ∧ v ≤ 15 := by
  intro v hv
  obtain ⟨n,hn,rfl⟩ := List.mem_map.mp hv
  exact h.inRange n hn

/-- Four bits for each value; those that are missing count as 0. -/
def packing (values : List Int) : Int :=
  4096 * values.getD 0 0 + 256 * values.getD 1 0 + 16 * values.getD 2 0 + values.getD 3 0

theorem dotted_singleton (n : Numeral) : dotted [n] = n.text := by
  simp [dotted,List.intercalate]

theorem dotted_cons (n m : Numeral) (ns : List Numeral) :
    dotted (n :: m :: ns) = n.text ++ '.' :: dotted (m :: ns) := by
  simp [dotted,List.intercalate]

theorem startsNoDigit_dot (cs : List Char) : StartsNoDigit ('.' :: cs) :=
  startsNoDigit_cons (by decide)

/-! One pass of the loop over a numeral, and what stands behind it. -/

theorem extract_numeral {n : Numeral} {rest : List Char} (val : Vector Int 4) {k : Nat}
    (f : Bool) (hr : StartsNoDigit rest) (hn : 0 ≤ n.value ∧ n.value ≤ 15) (hk : k < 4) :
    Components.extract ⟨.ofChars (n.text ++ rest),val,k,f⟩ hk =
      (⟨.stoppedAt rest,val.set k n.value,k,f⟩,n.value) := by
  unfold Components.extract
  rw [IStream.extractInt_numeral hr (by omega) (by omega)]

theorem separator_nil (val : Vector Int 4) (k : Nat) (f : Bool) :
    Components.separator ⟨.stoppedAt [],val,k,f⟩ = ⟨⟨[],true,true⟩,val,k,f⟩ := rfl

theorem separator_dot (cs : List Char) (val : Vector Int 4) (k : Nat) (f : Bool) :
    Components.separator ⟨.stoppedAt ('.' :: cs),val,k,f⟩ = ⟨.ofChars cs,val,k,f⟩ := rfl

theorem separator_other {c : Char} (hc : c ≠ '.') (cs : List Char) (val : Vector Int 4)
    (k : Nat) (f : Bool) : Components.separator ⟨.stoppedAt (c :: cs),val,k,f⟩ =
      ⟨.ofChars (c :: cs),val,k,true⟩ := by
  unfold Components.separator
  rw [IStream.peek_cons]
  split
  case h_1 heq => simp at heq
  case h_2 heq => exact absurd (Option.some.inj (Prod.mk.inj heq).2) hc
  case h_3 heq =>
    rw [(Prod.mk.inj heq).1]

theorem readComponents_numeral (fuel : Nat) {n : Numeral} {rest : List Char}
    (val : Vector Int 4) {k : Nat} (f : Bool) (hr : StartsNoDigit rest)
    (hn : 0 ≤ n.value ∧ n.value ≤ 15) (hk : k < 4) :
    readComponents (fuel + 1) ⟨.ofChars (n.text ++ rest),val,k,f⟩ =
      (let s := Components.separator ⟨.stoppedAt rest,val.set k n.value,k,f⟩
      if s.ss.eof then some s
      else if s.len + 1 < 4 then readComponents fuel { s with len := s.len + 1 }
      else some { s with len := s.len + 1 }) := by
  have hgo : ¬ ((IStream.stoppedAt rest).fail = true ∨ n.value < 0 ∨ n.value > 15) := by
    simp only [IStream.stoppedAt,Bool.false_eq_true,false_or]
    omega
  rw [readComponents,dif_pos hk,extract_numeral val f hr hn hk]
  dsimp only
  rw [if_neg hgo]

theorem readComponents_last (fuel : Nat) {n : Numeral} (val : Vector Int 4) {k : Nat}
    (f : Bool) (hn : 0 ≤ n.value ∧ n.value ≤ 15) (hk : k < 4) :
    readComponents (fuel + 1) ⟨.ofChars n.text,val,k,f⟩ =
      some ⟨⟨[],true,true⟩,val.set k n.value,k,f⟩ := by
  have hpass := readComponents_numeral fuel val f startsNoDigit_nil hn hk
  rwa [List.append_nil,separator_nil] at hpass

theorem readComponents_dot (fuel : Nat) {n : Numeral} (cs : List Char) (val : Vector Int 4)
    {k : Nat} (f : Bool) (hn : 0 ≤ n.value ∧ n.value ≤ 15) (hk : k < 4) :
    readComponents (fuel + 1) ⟨.ofChars (n.text ++ '.' :: cs),val,k,f⟩ =
      if k + 1 < 4 then readComponents fuel ⟨.ofChars cs,val.set k n.value,k + 1,f⟩
      else some ⟨.ofChars cs,val.set k n.value,k + 1,f⟩ := by
  rw [readComponents_numeral fuel val f (startsNoDigit_dot cs) hn hk,separator_dot]
  rfl

theorem extract_frame (s : Components) (h : s.len < 4) :
    (s.extract h).1.len = s.len ∧ (s.extract h).1.failed = s.failed := by
  unfold Components.extract
  split <;> exact ⟨rfl,rfl⟩

theorem separator_frame (s : Components) :
    s.separator.len = s.len ∧ (s.failed = true → s.separator.failed = true) := by
  unfold Components.separator
  split
  · exact ⟨rfl,id⟩
  · exact ⟨rfl,id⟩
  · exact ⟨rfl,fun _ => rfl⟩

/-- The index stays inside `val`, and once `failbit` is set it stays set. -/
theorem readComponents_some {fuel : Nat} {s : Components} (hfuel : s.len + fuel = 4)
    (hpos : 0 < fuel) :
    ∃ t, readComponents fuel s = some t ∧ (s.failed = true → t.failed = true) := by
  induction fuel generalizing s with
  | zero => omega
  | succ fuel ih =>
    have hk : s.len < 4 := by omega
    have hx := extract_frame s hk
    have hsep := separator_frame (s.extract hk).1
    rw [readComponents,dif_pos hk]
    dsimp only
    split
    · exact ⟨_,rfl,fun _ => rfl⟩
    · split
      · exact ⟨_,rfl,fun hf => hsep.2 (hx.2.trans hf)⟩
      · split
        · obtain ⟨t,ht,hfailed⟩ := ih (s := { (s.extract hk).1.separator with
            len := (s.extract hk).1.separator.len + 1 }) (by dsimp only; omega) (by omega)
          exact ⟨t,ht,fun hf => hfailed (hsep.2 (hx.2.trans hf))⟩
        · exact ⟨_,rfl,fun hf => hsep.2 (hx.2.trans hf)⟩

/-! The whole loop. -/

def store (val : Vector Int 4) (k : Nat) : List Int → Vector Int 4
  | [] => val
  | v :: vs => if h : k < 4 then store (val.set k v) (k + 1) vs else val

theorem readComponents_dotted {fuel k : Nat} (n : Numeral) (ns : List Numeral)
    (val : Vector Int 4) (f : Bool) (hfuel : k + fuel = 4) (hlen : ns.length < fuel)
    (hn : ∀ m ∈ n :: ns, 0 ≤ m.value ∧ m.value ≤ 15) :
    readComponents fuel ⟨.ofChars (dotted (n :: ns)),val,k,f⟩ =
      some ⟨⟨[],true,true⟩,store val k ((n :: ns).map Numeral.value),k + ns.length,f⟩ := by
  induction ns generalizing fuel k n val with
  | nil =>
    obtain ⟨fuel,rfl⟩ : ∃ m, fuel = m + 1 := ⟨fuel - 1,by simp at hlen; omega⟩
    have hk : k < 4 := by omega
    rw [dotted_singleton,readComponents_last fuel val f (hn n (by simp)) hk]
    simp [store,hk]
  | cons m ns ih =>
    obtain ⟨fuel,rfl⟩ : ∃ m, fuel = m + 1 := ⟨fuel - 1,by simp at hlen; omega⟩
    rw [List.length_cons] at hlen
    have hk : k < 4 := by omega
    rw [dotted_cons,readComponents_dot fuel _ val f (hn n (by simp)) hk,if_pos (by omega)]
    rw [ih m _ (by omega) (by omega) (fun x hx => hn x (List.mem_cons_of_mem _ hx))]
    have hlast : k + 1 + ns.length = k + (ns.length + 1) := by omega
    simp only [List.map_cons,List.length_cons,store,dif_pos hk,hlast]

theorem extract_ss (s : Components) (h : s.len < 4) :
    (s.extract h).1.ss = (s.ss.extractInt (-2 ^ 31) (2 ^ 31 - 1)).1 := by
  unfold Components.extract
  split
  case h_1 heq => rw [heq]
  case h_2 heq => rw [heq]

theorem readComponents_rejects (fuel : Nat) {cs : List Char} (val : Vector Int 4) {k : Nat}
    (f : Bool) (hcs : ∀ c ∈ cs, isSpace c = false) (hk : k < 4)
    (hn : ¬ ∃ (n : Numeral) (rest : List Char), cs = n.text ++ rest ∧ StartsNoDigit rest ∧
      0 ≤ n.value ∧ n.value ≤ 15) :
    ∃ t, readComponents (fuel + 1) ⟨.ofChars cs,val,k,f⟩ = some t ∧ t.failed = true := by
  rw [readComponents,dif_pos hk]
  have hstop : ∀ (p : Components × Int), p = Components.extract ⟨.ofChars cs,val,k,f⟩ hk →
      (p.1.ss.fail = true ∨ p.2 < 0 ∨ p.2 > 15) := by
    rintro p rfl
    cases hfail : ((IStream.ofChars cs).extractInt (-2 ^ 31) (2 ^ 31 - 1)).1.fail with
    | true =>
      left
      rw [extract_ss]
      exact hfail
    | false =>
      obtain ⟨n,rest,rfl,hr,hlo,hhi⟩ := IStream.exists_of_extractInt hcs hfail
      right
      unfold Components.extract
      rw [IStream.extractInt_numeral hr hlo hhi]
      dsimp only
      by_contra hrange
      exact hn ⟨n,rest,rfl,hr,by omega⟩
  dsimp only
  rw [if_pos (hstop _ rfl)]
  exact ⟨_,rfl,rfl⟩

theorem readComponents_other {fuel : Nat} {n : Numeral} {c : Char} {cs : List Char}
    (val : Vector Int 4) {k : Nat} (f : Bool) (hfuel : k + (fuel + 1) = 4) (hc : c ≠ '.')
    (hr : StartsNoDigit (c :: cs)) (hn : 0 ≤ n.value ∧ n.value ≤ 15) :
    ∃ t, readComponents (fuel + 1) ⟨.ofChars (n.text ++ c :: cs),val,k,f⟩ = some t ∧
      t.failed = true := by
  rw [readComponents_numeral fuel val f hr hn (by omega),separator_other hc]
  simp only [IStream.ofChars,Bool.false_eq_true,if_false]
  split
  · obtain ⟨t,ht,hsticky⟩ := @readComponents_some fuel
      ⟨.ofChars (c :: cs),val.set k n.value,k + 1,true⟩ (by dsimp only; omega) (by omega)
    exact ⟨t,ht,hsticky rfl⟩
  · exact ⟨_,rfl,rfl⟩

theorem readComponents_sound {fuel k : Nat} {cs : List Char} {val : Vector Int 4}
    {t : Components} (hfuel : k + fuel = 4) (hcs : ∀ c ∈ cs, isSpace c = false)
    (ht : readComponents fuel ⟨.ofChars cs,val,k,false⟩ = some t) (hfailed : t.failed = false)
    (hlen : t.len ≠ 4) :
    ∃ n ns, ns.length < fuel ∧ cs = dotted (n :: ns) ∧
      ∀ m ∈ n :: ns, 0 ≤ m.value ∧ m.value ≤ 15 := by
  induction fuel generalizing k cs val with
  | zero => simp [readComponents] at ht
  | succ fuel ih =>
    have hk : k < 4 := by omega
    by_cases hn : ∃ (n : Numeral) (rest : List Char), cs = n.text ++ rest ∧
        StartsNoDigit rest ∧ 0 ≤ n.value ∧ n.value ≤ 15
    · obtain ⟨n,rest,rfl,hr,hrange⟩ := hn
      cases rest with
      | nil =>
        refine ⟨n,[],by simp,?_,by simpa using hrange⟩
        rw [List.append_nil,dotted_singleton]
      | cons c rest =>
        by_cases hc : c = '.'
        · subst hc
          rw [readComponents_dot fuel rest val false hrange hk] at ht
          split at ht
          · obtain ⟨m,ns,hl,rfl,hall⟩ := ih (by omega)
              (fun x hx => hcs x (by simp [hx])) ht
            refine ⟨n,m :: ns,by simp; omega,(dotted_cons n m ns).symm,?_⟩
            intro x hx
            rcases List.mem_cons.mp hx with rfl | hx
            · exact hrange
            · exact hall x hx
          · obtain rfl := Option.some.inj ht
            exact absurd (show k + 1 = 4 by omega) hlen
        · obtain ⟨u,hu,hbad⟩ := readComponents_other val false hfuel hc hr hrange
          rw [ht] at hu
          obtain rfl := Option.some.inj hu
          simp [hbad] at hfailed
    · obtain ⟨u,hu,hbad⟩ := readComponents_rejects fuel val false hcs hk hn
      rw [ht] at hu
      obtain rfl := Option.some.inj hu
      simp [hbad] at hfailed

/-! What is stored, as the bits of the address. -/

theorem ofInt_and_15 {v : Int} (h0 : 0 ≤ v) (h15 : v ≤ 15) :
    (BitVec.ofInt 32 v &&& 15#32).toNat = v.toNat := by
  have hv : BitVec.ofInt 32 v = BitVec.ofNat 32 v.toNat := by
    rw [← BitVec.ofInt_natCast,Int.toNat_of_nonneg h0]
  have hmask : v.toNat &&& 15 = v.toNat % 16 := Nat.and_two_pow_sub_one_eq_mod v.toNat 4
  rw [hv,BitVec.toNat_and,BitVec.toNat_ofNat,BitVec.toNat_ofNat,
    Nat.mod_eq_of_lt (by omega : v.toNat < 2 ^ 32),Nat.mod_eq_of_lt (by omega : 15 < 2 ^ 32),hmask]
  omega

theorem shiftLeft_or {i b : Nat} (hb : b < 2 ^ i) (a : Nat) : a <<< i ||| b = 2 ^ i * a + b := by
  rw [← Nat.shiftLeft_add_eq_or_of_lt hb,Nat.shiftLeft_eq,Nat.mul_comm]

theorem or_shifts {a b c d : Nat} (hb : b < 16) (hc : c < 16) (hd : d < 16) :
    a <<< 12 ||| b <<< 8 ||| c <<< 4 ||| d = 4096 * a + 256 * b + 16 * c + d := by
  have hcd : c <<< 4 ||| d = 16 * c + d := shiftLeft_or hd c
  have hbcd : b <<< 8 ||| (16 * c + d) = 256 * b + (16 * c + d) := shiftLeft_or (by omega) b
  have hall : a <<< 12 ||| (256 * b + (16 * c + d)) = 4096 * a + (256 * b + (16 * c + d)) :=
    shiftLeft_or (by omega) a
  rw [Nat.or_assoc,Nat.or_assoc,hcd,hbcd,hall]
  omega

theorem nibble {v : Int} (hv : 0 ≤ v ∧ v ≤ 15) {i : Nat} (hi : i ≤ 12) :
    ((BitVec.ofInt 32 v &&& 15#32) <<< i).toNat = v.toNat <<< i := by
  have hpow : 2 ^ i ≤ 2 ^ 12 := Nat.pow_le_pow_right (by decide) hi
  have hmul : v.toNat * 2 ^ i ≤ 15 * 2 ^ 12 := Nat.mul_le_mul (by omega) hpow
  rw [BitVec.toNat_shiftLeft,ofInt_and_15 hv.1 hv.2,Nat.shiftLeft_eq,
    Nat.mod_eq_of_lt (by omega)]

theorem set_address {a b c d : Int} (ha : 0 ≤ a ∧ a ≤ 15) (hb : 0 ≤ b ∧ b ≤ 15)
    (hc : 0 ≤ c ∧ c ≤ 15) (hd : 0 ≤ d ∧ d ≤ 15) :
    ((PhysicalAddress.set #v[a,b,c,d]).address.toNat : Int) = packing [a,b,c,d] := by
  have hset : (PhysicalAddress.set #v[a,b,c,d]).address.toNat =
      4096 * a.toNat + 256 * b.toNat + 16 * c.toNat + d.toNat := by
    change (BitVec.setWidth 16 ((BitVec.ofInt 32 a &&& 15#32) <<< 12 |||
      (BitVec.ofInt 32 b &&& 15#32) <<< 8 ||| (BitVec.ofInt 32 c &&& 15#32) <<< 4 |||
      (BitVec.ofInt 32 d &&& 15#32))).toNat = _
    rw [BitVec.toNat_setWidth,BitVec.toNat_or,BitVec.toNat_or,BitVec.toNat_or,
      nibble ha (by omega),nibble hb (by omega),nibble hc (by omega),ofInt_and_15 hd.1 hd.2,
      or_shifts (by omega) (by omega) (by omega),Nat.mod_eq_of_lt (by omega)]
  rw [hset]
  simp only [packing,List.getD_cons_zero,List.getD_cons_succ]
  omega

theorem set_store {vs : List Int} (hlen : vs.length ≤ 4) (hvs : ∀ v ∈ vs, 0 ≤ v ∧ v ≤ 15) :
    ((PhysicalAddress.set (store #v[0,0,0,0] 0 vs)).address.toNat : Int) = packing vs := by
  have hzero : (0 : Int) ≤ 0 ∧ (0 : Int) ≤ 15 := by decide
  match vs,hlen with
  | [],_ => rfl
  | [a],_ => exact set_address (hvs a (by simp)) hzero hzero hzero
  | [a,b],_ => exact set_address (hvs a (by simp)) (hvs b (by simp)) hzero hzero
  | [a,b,c],_ => exact set_address (hvs a (by simp)) (hvs b (by simp)) (hvs c (by simp)) hzero
  | [a,b,c,d],_ =>
    exact set_address (hvs a (by simp)) (hvs b (by simp)) (hvs c (by simp)) (hvs d (by simp))

/-! The extraction as a whole. -/

/-- From any stream the loop ends inside `val`, and the address is assigned exactly when the
extraction succeeds, to what the stream says. -/
theorem extractPhysical_total (input : IStream) :
    ∃ (input' : IStream) (found : Option PhysicalAddress),
      (∀ address, extractPhysical input address = some (input',found.getD address)) ∧
        input'.fail = !found.isSome := by
  obtain ⟨t,ht,_⟩ := @readComponents_some 4
    ⟨.ofChars input.extractString.2,#v[0,0,0,0],0,false⟩ rfl (by omega)
  let mid : IStream := if t.failed then input.extractString.1.setFail else input.extractString.1
  by_cases hlen : t.len = 4
  · refine ⟨mid.setFail,none,fun address => ?_,rfl⟩
    simp [extractPhysical,ht,hlen,mid]
  · cases hfail : mid.fail with
    | true =>
      refine ⟨mid,none,fun address => ?_,hfail⟩
      simp only [mid] at hfail
      simp [extractPhysical,ht,hlen,hfail,mid]
    | false =>
      refine ⟨mid,some (PhysicalAddress.set t.val),fun address => ?_,hfail⟩
      simp only [mid] at hfail
      simp [extractPhysical,ht,hlen,hfail,mid]

theorem extractPhysical_eq {ws after : List Char} (hws : ∀ c ∈ ws, isSpace c = true)
    (t : Token) (ha : ∀ c ∈ after.head?, isSpace c = true) (address : PhysicalAddress) :
    extractPhysical (.ofChars (ws ++ (t.text ++ after))) address =
      (readComponents 4 ⟨.ofChars t.text,#v[0,0,0,0],0,false⟩).map fun u =>
        if u.len = 4 ∨ u.failed = true then ((IStream.stoppedAt after).setFail,address)
        else (.stoppedAt after,.set u.val) := by
  unfold extractPhysical
  rw [IStream.extractString_token hws t ha]
  dsimp only
  cases readComponents 4 ⟨.ofChars t.text,#v[0,0,0,0],0,false⟩ with
  | none => rfl
  | some u =>
    cases hfailed : u.failed <;> by_cases hlen : u.len = 4 <;>
      simp [hfailed,hlen,IStream.stoppedAt,IStream.setFail]

theorem extractPhysical_accepts {ws after : List Char} (hws : ∀ c ∈ ws, isSpace c = true)
    (t : Token) (ha : ∀ c ∈ after.head?, isSpace c = true) (address : PhysicalAddress)
    {ns : List Numeral} (hns : PhysicalForm ns) (ht : t.text = dotted ns) :
    extractPhysical (.ofChars (ws ++ (t.text ++ after))) address =
      some (.stoppedAt after,.set (store #v[0,0,0,0] 0 (ns.map Numeral.value))) := by
  obtain ⟨hone,hfour,hrange⟩ := hns
  cases ns with
  | nil => simp at hone
  | cons n ns =>
    rw [List.length_cons] at hfour
    have hread := @readComponents_dotted 4 0 n ns #v[0,0,0,0] false rfl (by omega) hrange
    rw [extractPhysical_eq hws t ha,ht,hread]
    dsimp only [Option.map_some]
    rw [if_neg (by simp; omega)]

theorem extractPhysical_alone (t : Token) (address : PhysicalAddress) {ns : List Numeral}
    (hns : PhysicalForm ns) (ht : t.text = dotted ns) :
    extractPhysical (.ofChars t.text) address =
      some (.stoppedAt [],.set (store #v[0,0,0,0] 0 (ns.map Numeral.value))) := by
  have hread := @extractPhysical_accepts [] [] (by simp) t (by simp) address ns hns ht
  rwa [List.nil_append,List.append_nil] at hread

theorem extractPhysical_rejects {ws after : List Char} (hws : ∀ c ∈ ws, isSpace c = true)
    (t : Token) (ha : ∀ c ∈ after.head?, isSpace c = true) (address : PhysicalAddress)
    (hform : ¬ ∃ ns, PhysicalForm ns ∧ t.text = dotted ns) :
    extractPhysical (.ofChars (ws ++ (t.text ++ after))) address =
      some ((IStream.stoppedAt after).setFail,address) := by
  obtain ⟨u,hu,_⟩ := @readComponents_some 4 ⟨.ofChars t.text,#v[0,0,0,0],0,false⟩ rfl (by omega)
  have hbad : u.len = 4 ∨ u.failed = true := by
    by_contra hgood
    rw [not_or,Bool.not_eq_true] at hgood
    obtain ⟨n,ns,hlen,ht,hrange⟩ := readComponents_sound rfl t.noSpace hu hgood.2 hgood.1
    exact hform ⟨n :: ns,⟨by simp,by simp; omega,hrange⟩,ht⟩
  rw [extractPhysical_eq hws t ha,hu]
  dsimp only [Option.map_some]
  rw [if_pos hbad]

/-- Every token, wherever it stands: accepted exactly when it is one to four components
with single dots between them. -/
theorem extractPhysical_token {ws after : List Char} (hws : ∀ c ∈ ws, isSpace c = true)
    (t : Token) (ha : ∀ c ∈ after.head?, isSpace c = true) (address : PhysicalAddress) :
    ∃ input' address', extractPhysical (.ofChars (ws ++ (t.text ++ after))) address =
        some (input',address') ∧
      (input'.fail = false ↔ ∃ ns, PhysicalForm ns ∧ t.text = dotted ns) ∧
      (∀ ns, PhysicalForm ns → t.text = dotted ns →
        (address'.address.toNat : Int) = packing (ns.map Numeral.value)) ∧
      (input'.fail = true → address' = address) := by
  by_cases hform : ∃ ns, PhysicalForm ns ∧ t.text = dotted ns
  · obtain ⟨ns,hns,ht⟩ := hform
    have hx := extractPhysical_accepts hws t ha address hns ht
    refine ⟨_,_,hx,⟨fun _ => ⟨ns,hns,ht⟩,fun _ => rfl⟩,?_,fun hf => by simp [IStream.stoppedAt] at hf⟩
    intro ms hms htm
    have hy := extractPhysical_accepts hws t ha address hms htm
    rw [hx] at hy
    have heq := (Prod.mk.inj (Option.some.inj hy)).2
    rw [heq]
    exact set_store (by simpa using hms.atMostFour) hms.values_inRange
  · refine ⟨_,_,extractPhysical_rejects hws t ha address hform,?_,?_,fun _ => rfl⟩
    · exact ⟨fun hf => by simp [IStream.setFail] at hf,fun h => absurd h hform⟩
    · exact fun ns hns ht => absurd ⟨ns,hns,ht⟩ hform

theorem extractPhysical_two_components :
    ∃ input' address', extractPhysical (.ofChars ([' '] ++ (['2','.','+','0','1'] ++ ['\n'])))
        ⟨0xFFFF#16⟩ = some (input',address') ∧ input'.fail = false ∧
      (address'.address.toNat : Int) = 0x2100 := by
  let ns : List Numeral := [⟨.none,['2'],by simp,by simp⟩,⟨.plus,['0','1'],by simp,by simp⟩]
  have hform : PhysicalForm ns := ⟨by decide,by decide,by decide⟩
  have htext : ['2','.','+','0','1'] = dotted ns := by decide
  obtain ⟨input',address',hread,hiff,hpacked,-⟩ := @extractPhysical_token [' '] ['\n']
    (by simp [isSpace]) ⟨['2','.','+','0','1'],by decide,by simp [isSpace]⟩ (by simp [isSpace])
    ⟨0xFFFF#16⟩
  exact ⟨input',address',hread,hiff.mpr ⟨ns,hform,htext⟩,hpacked ns hform htext⟩

example : extractPhysical (.ofChars "1.2.3.4".toList) ⟨0⟩ =
    some (⟨[],true,false⟩,⟨0x1234#16⟩) := by decide

end Ceclircd
