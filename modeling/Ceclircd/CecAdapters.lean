import Mathlib.Data.Int.Notation
import Mathlib.Algebra.Group.Int.Defs
import Mathlib.Algebra.Group.Nat.Defs
set_option autoImplicit false

/-! `Cec::open` and `Cec::listDevices`: what they make of the result of `FindAdapters`,
and which entries of its array they read. -/

namespace Ceclircd

/-- `cec_adapter`, its two texts up to their terminators. -/
structure CecAdapter where
  path : String
  comm : String
  deriving DecidableEq, Repr

def maxCecPorts : Int := 15 - 1

structure OpenRun where
  reads : List Nat
  opened : Option String
  threw : Option String
  deriving DecidableEq, Repr

def CecAdapter.isNamed (name : String) (device : CecAdapter) : Prop :=
  name = device.path ∨ name = device.comm

instance (name : String) (device : CecAdapter) : Decidable (device.isNamed name) :=
  inferInstanceAs (Decidable (_ ∨ _))

def findDevice (devices : Nat → CecAdapter) (name : String) (ret id : Nat) : Nat × List Nat :=
  if id < ret then
    if name = (devices id).path then (id,[id])
    else if name = (devices id).comm then (id,[id,id])
    else
      let r := findDevice devices name ret (id + 1)
      (r.1,id :: id :: r.2)
  else (id,[])
termination_by ret - id

/-- From `// Just use the first found` on. -/
def openDevice (devices : Nat → CecAdapter) (opens : String → Bool) (reads : List Nat)
    (id : Nat) : OpenRun :=
  if !opens (devices id).comm then
    ⟨reads ++ [id,id],some (devices id).comm,some "Failed to open adapter"⟩
  else ⟨reads ++ [id,id,id],some (devices id).comm,none⟩

/-- `Cec::open` after `init()`. The result is narrowed to `uint8_t` before it is tested;
`devices` is what stands in memory from the array on. -/
def Cec.openNamed (name : String) (result : Int) (devices : Nat → CecAdapter)
    (opens : String → Bool) : OpenRun :=
  let ret : BitVec 8 := BitVec.ofInt 8 result
  if (ret.toNat : Int) < 0 then ⟨[],none,some "Error occurred searching for adapters"⟩
  else if ret.toNat = 0 then ⟨[],none,some "No adapters found"⟩
  else if name ≠ "" then
    let (id,reads) := findDevice devices name ret.toNat 0
    if id = ret.toNat then ⟨reads,none,some "adapter not found"⟩
    else openDevice devices opens reads id
  else openDevice devices opens [] 0

/-- The loop of `Cec::listDevices`, by the entries it reads; `ret` stays signed there. -/
def Cec.listDevices (result : Int) : List Nat :=
  let ret : Int := (BitVec.ofInt 8 result).toInt
  if ret < 0 then []
  else (List.range ret.toNat).flatMap fun i => [i,i,i]

/-- What is asked of `Cec::open`, for the adapters that `FindAdapters` reported. -/
structure OpensReported (name : String) (result : Int) (devices : Nat → CecAdapter)
    (r : OpenRun) : Prop where
  throws : (result ≤ 0 ∨ name ≠ "" ∧ ∀ i : Nat, i < result → ¬ (devices i).isNamed name) →
    r.threw.isSome = true ∧ r.opened = none
  opensFirst : 0 < result → name = "" → r.opened = some (devices 0).comm
  opensNamed : ∀ i : Nat, i < result → name ≠ "" → (devices i).isNamed name →
    (∀ j < i, ¬ (devices j).isNamed name) → r.opened = some (devices i).comm
  reads : ∀ i ∈ r.reads, (i : Int) < result

theorem findDevice_spec (devices : Nat → CecAdapter) (name : String) {ret id : Nat}
    (h : id ≤ ret) : (findDevice devices name ret id).1 ≤ ret ∧
      ((findDevice devices name ret id).1 < ret →
        (devices (findDevice devices name ret id).1).isNamed name) ∧
      (∀ i, id ≤ i → i < (findDevice devices name ret id).1 → ¬ (devices i).isNamed name) ∧
      ∀ i ∈ (findDevice devices name ret id).2, i < ret := by
  fun_induction findDevice devices name ret id with
  | case1 id hlt hpath => exact ⟨h,fun _ => .inl hpath,by omega,by simpa using hlt⟩
  | case2 id hlt hpath hcomm => exact ⟨h,fun _ => .inr hcomm,by omega,by simpa using hlt⟩
  | case3 id hlt hpath hcomm r ih =>
    obtain ⟨hle,hnamed,hbefore,hreads⟩ := ih (by omega)
    refine ⟨hle,hnamed,?_,?_⟩
    · intro i hi hlt'
      rcases Nat.eq_or_lt_of_le hi with rfl | hi
      · exact not_or.mpr ⟨hpath,hcomm⟩
      · exact hbefore i hi hlt'
    · intro i hi
      simp only [List.mem_cons] at hi
      rcases hi with rfl | rfl | hi
      · exact hlt
      · exact hlt
      · exact hreads i hi
  | case4 id hlt => exact ⟨h,fun hid => absurd hid hlt,by omega,by simp⟩

theorem mem_findDevice (devices : Nat → CecAdapter) (name : String) {ret id : Nat}
    (h : id < ret) : id ∈ (findDevice devices name ret id).2 := by
  rw [findDevice,if_pos h]
  split
  · simp
  · split
    · simp
    · simp

theorem openDevice_opened (devices : Nat → CecAdapter) (opens : String → Bool)
    (reads : List Nat) (id : Nat) :
    (openDevice devices opens reads id).opened = some (devices id).comm := by
  unfold openDevice
  split <;> rfl

theorem mem_openDevice {devices : Nat → CecAdapter} {opens : String → Bool}
    {reads : List Nat} {id i : Nat} :
    i ∈ (openDevice devices opens reads id).reads ↔ i ∈ reads ∨ i = id := by
  unfold openDevice
  split <;> simp

theorem narrow_error : (BitVec.ofInt 8 (-1)).toNat = 255 := by decide

theorem narrow_count {n : Nat} (h : n ≤ 14) : (BitVec.ofInt 8 n).toNat = n := by
  rw [BitVec.ofInt_natCast,BitVec.toNat_ofNat]
  omega

theorem openNamed_error (name : String) (devices : Nat → CecAdapter) (opens : String → Bool) :
    0 ∈ (Cec.openNamed name (-1) devices opens).reads := by
  unfold Cec.openNamed
  simp only [narrow_error]
  rw [if_neg (by omega),if_neg (by omega)]
  split
  · have hmem := mem_findDevice devices name (by omega : 0 < 255)
    split
    · exact hmem
    · exact mem_openDevice.mpr (.inl hmem)
  · exact mem_openDevice.mpr (.inr rfl)

theorem openNamed_count {n : Nat} (hn : n ≤ 14) (name : String) (devices : Nat → CecAdapter)
    (opens : String → Bool) :
    OpensReported name n devices (Cec.openNamed name n devices opens) := by
  unfold Cec.openNamed
  simp only [narrow_count hn]
  rw [if_neg (by omega)]
  by_cases h0 : n = 0
  · subst h0
    exact ⟨fun _ => ⟨rfl,rfl⟩,fun h => by omega,fun i hi => by omega,by simp⟩
  rw [if_neg h0]
  by_cases hname : name = ""
  · rw [if_neg (fun hne => hne hname)]
    refine ⟨?_,fun _ _ => openDevice_opened _ _ _ _,fun i _ hne => absurd hname hne,?_⟩
    · rintro (hle | ⟨hne,_⟩)
      · omega
      · exact absurd hname hne
    · intro i hi
      have hi := mem_openDevice.mp hi
      simp only [List.not_mem_nil,false_or] at hi
      omega
  rw [if_pos hname]
  obtain ⟨hle,hnamed,hbefore,hreads⟩ := findDevice_spec devices name (Nat.zero_le n)
  by_cases hend : (findDevice devices name n 0).1 = n
  · -- no reported adapter has the name
    rw [if_pos hend]
    refine ⟨fun _ => ⟨rfl,rfl⟩,fun _ he => absurd he hname,?_,?_⟩
    · intro i hi _ hmatch _
      exact absurd hmatch (hbefore i (Nat.zero_le i) (by omega))
    · intro i hi
      exact_mod_cast hreads i hi
  · rw [if_neg hend]
    have hlt : (findDevice devices name n 0).1 < n := by omega
    refine ⟨?_,fun _ he => absurd he hname,?_,?_⟩
    · rintro (hle | ⟨_,hnone⟩)
      · omega
      · exact absurd (hnamed hlt) (hnone _ (by exact_mod_cast hlt))
    · intro i hi _ hmatch hfirst
      have hsame : (findDevice devices name n 0).1 = i := by
        rcases Nat.lt_trichotomy (findDevice devices name n 0).1 i with h | h | h
        · exact absurd (hnamed hlt) (hfirst _ h)
        · exact h
        · exact absurd hmatch (hbefore i (Nat.zero_le i) h)
      rw [openDevice_opened,hsame]
    · intro i hi
      rcases mem_openDevice.mp hi with hi | rfl
      · exact_mod_cast hreads i hi
      · exact_mod_cast hlt

/-- The narrowing hides the error, and nothing else: for every other result the call is
as the reported adapters ask. -/
theorem openNamed_iff {result : Int} (hmin : -1 ≤ result) (hmax : result ≤ maxCecPorts)
    (name : String) (devices : Nat → CecAdapter) (opens : String → Bool) :
    OpensReported name result devices (Cec.openNamed name result devices opens) ↔
      result ≠ -1 := by
  constructor
  · rintro h rfl
    have hread := h.reads 0 (openNamed_error name devices opens)
    omega
  · intro hne
    obtain ⟨n,rfl⟩ := Int.eq_ofNat_of_zero_le (by omega : 0 ≤ result)
    exact openNamed_count (by simp only [maxCecPorts] at hmax; omega) name devices opens

theorem openNamed_two_adapters :
    OpensReported "RPI" 2 (fun i => if i = 0 then ⟨"a","ttyACM0"⟩ else ⟨"b","RPI"⟩)
      (Cec.openNamed "RPI" 2 (fun i => if i = 0 then ⟨"a","ttyACM0"⟩ else ⟨"b","RPI"⟩)
        fun _ => true) :=
  (openNamed_iff (by decide) (by decide) _ _ _).mpr (by decide)

/-- An error, and no name asked for: whatever stands in `devices[0]` is opened. -/
theorem openNamed_ignores_error :
    Cec.openNamed "" (-1) (fun _ => ⟨"",""⟩) (fun _ => true) = ⟨[0,0,0],some "",none⟩ ∧
      ¬ OpensReported "" (-1) (fun _ => ⟨"",""⟩)
        (Cec.openNamed "" (-1) (fun _ => ⟨"",""⟩) fun _ => true) := by
  have h : Cec.openNamed "" (-1) (fun _ => ⟨"",""⟩) (fun _ => true) =
      ⟨[0,0,0],some "",none⟩ := by decide
  refine ⟨h,fun hr => ?_⟩
  have hthrew := (hr.throws (.inl (by decide))).1
  rw [h] at hthrew
  simp at hthrew

theorem listDevices_reads {result : Int} (hmin : -1 ≤ result) (hmax : result ≤ maxCecPorts) :
    ∀ i ∈ Cec.listDevices result, (i : Int) < result := by
  have hint : (BitVec.ofInt 8 result).toInt = result := by
    simp only [maxCecPorts] at hmax
    rw [BitVec.toInt_ofInt,Int.bmod_eq_of_le (by omega) (by omega)]
  intro i hi
  unfold Cec.listDevices at hi
  simp only [hint] at hi
  split at hi
  · simp at hi
  · obtain ⟨j,hj,hi⟩ := List.mem_flatMap.mp hi
    have hlt := List.mem_range.mp hj
    simp only [List.mem_cons,List.not_mem_nil,or_false,or_self] at hi
    omega

end Ceclircd
