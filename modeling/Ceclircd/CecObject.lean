import Ceclircd.CecAdapters
import Ceclircd.LoopCleanup
set_option autoImplicit false

/-! Class `Cec` over the life of the process: the adapter object of libcec that it holds, and
the order of the calls it makes on it. -/

namespace Ceclircd
open RunTrace

/-- Calls of libcec, with the adapter object they are made on. `assertFailed` is
`assert(cec)`. -/
inductive LibcecCall where
  | initialise (adapter : Option Nat)
  | initVideoStandalone (adapter : Nat)
  | findAdapters (adapter : Nat)
  | openAdapter (adapter : Nat) (comm : String) (ok : Bool)
  | setActiveSource (adapter : Nat) (ok : Bool)
  | setInactiveView (adapter : Nat)
  | close (adapter : Nat)
  | delete (adapter : Nat)
  | assertFailed
  deriving DecidableEq, Repr

structure Cout where
  hasBuffer : Bool
  bad : Bool
  deriving DecidableEq, Repr

def Cout.initial : Cout := ⟨true,false⟩

/-- `stream.rdbuf(sb)` clears the flags, and a stream without a buffer is bad. -/
def Cout.rdbuf (_ : Cout) (hasBuffer : Bool) : Cout := ⟨hasBuffer,!hasBuffer⟩

structure CecObject where
  cec : Option Nat
  g_cec : Option Nat
  cout : Cout
  deriving DecidableEq, Repr

structure LibcecOutcome where
  adapter : Option Nat
  found : Int
  devices : Nat → CecAdapter
  opens : String → Bool

namespace CecObject

def initial : CecObject := ⟨none,none,.initial⟩

/-- The text that was thrown, if any, comes with the calls. `cout` is redirected until the end
of the block, on the way out by the exception as well. -/
def init (o : CecObject) (adapter : Option Nat) :
    (CecObject × Option String) × List LibcecCall :=
  match o.cec with
  | some _ => ((o,none),[])
  | none =>
    let redirected := o.cout.rdbuf false
    match adapter with
    | none =>
      (({ o with g_cec := none, cout := redirected.rdbuf o.cout.hasBuffer },
        some "Failed to initialise libCEC"),[.initialise none])
    | some a =>
      (({ o with cec := some a, g_cec := some a, cout := redirected.rdbuf o.cout.hasBuffer },
        none),[.initialise (some a),.initVideoStandalone a])

def openNamed (o : CecObject) (name : String) (out : LibcecOutcome) :
    (CecObject × Option String) × List LibcecCall :=
  let ((o,threw),calls) := o.init out.adapter
  match threw,o.cec with
  | none,some a =>
    let r := Cec.openNamed name out.found out.devices out.opens
    let opening := match r.opened with
      | some comm => [.openAdapter a comm r.threw.isNone]
      | none => []
    ((o,r.threw),calls ++ .findAdapters a :: opening)
  | threw,_ => ((o,threw),calls)

def close (o : CecObject) (makeInactive : Bool) : List LibcecCall :=
  match o.cec with
  | none => [.assertFailed]
  | some a => (if makeInactive then [.setInactiveView a] else []) ++ [.close a]

def makeActive (o : CecObject) (ok : Bool) : List LibcecCall :=
  match o.cec with
  | none => [.assertFailed]
  | some a => [.setActiveSource a ok]

/-- The destructor. The deleter of `std::unique_ptr<ICECAdapter>` is `std::default_delete`, which
`ICECAdapterDeleter` was cut down to: libcec is not unloaded, and `g_cec` stays. -/
def destroy (o : CecObject) : CecObject × List LibcecCall :=
  match o.cec with
  | none => (o,[])
  | some a => ({ o with cec := none },[.delete a])

end CecObject

/-! The order that libcec asks for. -/

/-- libcec's one adapter object, whether `InitVideoStandalone` was called, whether `FindAdapters` was
since the last `Open`, and whether an adapter is open. -/
structure Libcec where
  adapter : Option Nat
  video : Bool
  found : Bool
  isOpen : Bool
  deriving DecidableEq, Repr

def Libcec.unloaded : Libcec := ⟨none,false,false,false⟩

/-- `none` where a call is made out of order. -/
def Libcec.record (l : Libcec) : LibcecCall → Option Libcec
  | .initialise adapter => if l.adapter = none then some ⟨adapter,false,false,false⟩ else none
  | .initVideoStandalone a =>
    if l.adapter = some a ∧ l.video = false then some { l with video := true } else none
  | .findAdapters a =>
    if l.adapter = some a ∧ l.video = true then some { l with found := true } else none
  | .openAdapter a _ ok =>
    if l.adapter = some a ∧ l.video = true ∧ l.found = true ∧ l.isOpen = false then
      some { l with found := false, isOpen := ok }
    else none
  | .setActiveSource a _ | .setInactiveView a =>
    if l.adapter = some a ∧ l.isOpen = true then some l else none
  | .close a =>
    if l.adapter = some a ∧ l.isOpen = true then some { l with isOpen := false } else none
  | .delete a => if l.adapter = some a then some .unloaded else none
  | .assertFailed => none

structure Holds (o : CecObject) (l : Libcec) : Prop where
  adapter : l.adapter = o.cec
  video : l.video = o.cec.isSome
  global : o.g_cec = o.cec
  cout : o.cout = .initial

theorem initial_holds : Holds .initial .unloaded := ⟨rfl,rfl,rfl,rfl⟩

section
variable {o : CecObject} {l : Libcec}

theorem Holds.congr (h : Holds o l) {l' : Libcec} (hadapter : l'.adapter = l.adapter)
    (hvideo : l'.video = l.video) : Holds o l' :=
  ⟨hadapter.trans h.adapter,hvideo.trans h.video,h.global,h.cout⟩

theorem Holds.init (h : Holds o l) (hclosed : l.isOpen = false) (adapter : Option Nat) :
    ∃ l', (o.init adapter).2.foldlM Libcec.record l = some l' ∧ l'.isOpen = false ∧
      Holds (o.init adapter).1.1 l' ∧
      ((o.init adapter).1.2 = none → (o.init adapter).1.1.cec.isSome = true) := by
  obtain ⟨hadapter,hvideo,hglobal,hcout⟩ := h
  unfold CecObject.init
  cases hc : o.cec with
  | some a => exact ⟨l,rfl,hclosed,⟨hadapter,hvideo,hglobal,hcout⟩,fun _ => by simp [hc]⟩
  | none =>
    rw [hc] at hadapter
    have hback : (o.cout.rdbuf false).rdbuf o.cout.hasBuffer = .initial := by
      rw [hcout]
      rfl
    cases adapter with
    | none =>
      refine ⟨.unloaded,by simp [Libcec.record,Libcec.unloaded,hadapter],rfl,?_,fun h => by simp at h⟩
      exact ⟨rfl,rfl,rfl,hback⟩
    | some a =>
      refine ⟨⟨some a,true,false,false⟩,by simp [Libcec.record,hadapter],rfl,?_,fun _ => rfl⟩
      exact ⟨rfl,rfl,rfl,hback⟩

theorem openNamed_threw (name : String) (result : Int) (devices : Nat → CecAdapter)
    (opens : String → Bool) : (Cec.openNamed name result devices opens).opened = none →
      (Cec.openNamed name result devices opens).threw.isNone = false := by
  unfold Cec.openNamed
  dsimp only
  split
  · exact fun _ => rfl
  · split
    · exact fun _ => rfl
    · split
      · split
        · exact fun _ => rfl
        · simp [openDevice_opened]
      · simp [openDevice_opened]

/-- An exception out of `Cec::open` leaves no adapter open. -/
theorem Holds.openNamed (h : Holds o l) (hclosed : l.isOpen = false) (name : String)
    (out : LibcecOutcome) :
    ∃ l', (o.openNamed name out).2.foldlM Libcec.record l = some l' ∧
      l'.isOpen = (o.openNamed name out).1.2.isNone ∧ Holds (o.openNamed name out).1.1 l' ∧
      ((o.openNamed name out).1.2 = none → (o.openNamed name out).1.1.cec.isSome = true) := by
  obtain ⟨l',hinit,hclosed',hholds,hsome⟩ := h.init hclosed out.adapter
  unfold CecObject.openNamed
  rcases hi : o.init out.adapter with ⟨⟨o',threw⟩,calls⟩
  rw [hi] at hinit hholds hsome
  cases threw with
  | some what => exact ⟨l',hinit,hclosed',hholds,fun h => by simp at h⟩
  | none =>
    obtain ⟨a,ha⟩ := Option.isSome_iff_exists.mp (hsome rfl)
    have ha : o'.cec = some a := ha
    have hadapter := hholds.adapter.trans ha
    have hvideo : l'.video = true := by rw [hholds.video,hsome rfl]
    simp only [ha]
    cases hr : (Cec.openNamed name out.found out.devices out.opens).opened with
    | none =>
      have hthrew := openNamed_threw name out.found out.devices out.opens hr
      refine ⟨{ l' with found := true },?_,?_,hholds.congr rfl rfl,fun _ => rfl⟩
      · simp [List.foldlM_append,hinit,Libcec.record,hadapter,hvideo]
      · exact hclosed'.trans hthrew.symm
    | some comm =>
      generalize Cec.openNamed name out.found out.devices out.opens = r
      refine ⟨{ l' with found := false, isOpen := r.threw.isNone },?_,rfl,hholds.congr rfl rfl,
        fun _ => rfl⟩
      simp [List.foldlM_append,hinit,Libcec.record,hadapter,hvideo,hclosed']

theorem Holds.close (h : Holds o l) (hopen : l.isOpen = true) (hsome : o.cec.isSome = true)
    (makeInactive : Bool) :
    (o.close makeInactive).foldlM Libcec.record l = some { l with isOpen := false } := by
  obtain ⟨a,ha⟩ := Option.isSome_iff_exists.mp hsome
  have hadapter := h.adapter.trans ha
  rw [CecObject.close,ha]
  cases makeInactive <;> simp [Libcec.record,hadapter,hopen]

theorem Holds.makeActive (h : Holds o l) (hopen : l.isOpen = true) (hsome : o.cec.isSome = true)
    (ok : Bool) : (o.makeActive ok).foldlM Libcec.record l = some l := by
  obtain ⟨a,ha⟩ := Option.isSome_iff_exists.mp hsome
  have hadapter := h.adapter.trans ha
  rw [CecObject.makeActive,ha]
  simp [Libcec.record,hadapter,hopen]

theorem Holds.destroy (h : Holds o l) :
    ∃ l', o.destroy.2.foldlM Libcec.record l = some l' ∧ l'.adapter = none := by
  rw [CecObject.destroy]
  cases hc : o.cec with
  | none => exact ⟨l,rfl,h.adapter.trans hc⟩
  | some a => exact ⟨.unloaded,by simp [Libcec.record,h.adapter.trans hc],rfl⟩

end

end Ceclircd
