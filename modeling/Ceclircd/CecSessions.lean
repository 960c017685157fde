import Ceclircd.CecObject
set_option autoImplicit false

/-! `Main::loop` on its `Cec`: the outcome of the statements that call it is made by the object,
from what libcec answers. -/

namespace Ceclircd
open RunTrace

structure CecSystem where
  system : System
  object : CecObject

/-- `ok` is the outcome of `mylirc.Open` and `SetActiveSource`. -/
inductive CecAction where
  | loop (ok : Bool) (out : LibcecOutcome)
  | callback (c : Callback)
  | signal (sigNum : Signal)

inductive CecEvent where
  | main (e : Event)
  | libcec (call : LibcecCall)
  deriving DecidableEq, Repr

def CecEvent.main? : CecEvent → Option Event
  | .main e => some e
  | .libcec _ => none

def CecEvent.libcec? : CecEvent → Option LibcecCall
  | .main _ => none
  | .libcec call => some call

def loopTrace (tr : List CecEvent) : List Event := tr.filterMap CecEvent.main?
def libcecCalls (tr : List CecEvent) : List LibcecCall := tr.filterMap CecEvent.libcec?

namespace CecSystem

def initial (c : Settings) : CecSystem := ⟨.initial c,.initial⟩

/-- What the next statement of the loop makes of its object, and its outcome. -/
def statement (device : String) (d : CecSystem) (ok : Bool) (out : LibcecOutcome) :
    (Bool × CecObject) × List LibcecCall :=
  match d.system.pc with
  | .cecOpen =>
    let ((object,threw),calls) := d.object.openNamed device out
    ((threw.isNone,object),calls)
  | .lircOpen => ((ok,d.object),if ok then [] else d.object.close (!d.system.restart))
  | .makeActive =>
    ((ok,d.object),if d.system.main.makeActive then d.object.makeActive ok else [])
  | .cecClose => ((ok,d.object),d.object.close (!d.system.restart))
  | _ => ((ok,d.object),[])

def step (device : String) (d : CecSystem) : CecAction → Option (CecSystem × List CecEvent)
  | .loop ok out => do
      let ((ok,object),calls) := d.statement device ok out
      let (system,es) ← d.system.step (.loop ok)
      some (⟨system,object⟩,calls.map .libcec ++ es.map .main)
  | .callback c => do
      let (system,es) ← d.system.step (.callback c)
      some ({ d with system },es.map .main)
  | .signal sigNum => do
      let (system,es) ← d.system.step (.signal sigNum)
      some ({ d with system },es.map .main)

/-- The object agrees with libcec, and the loop knows whether an adapter is open. -/
structure Kept (d : CecSystem) (l : Libcec) : Prop where
  holds : Holds d.object l
  isOpen : d.system.pc ≠ .threw → l.isOpen = d.system.pc.cecIsOpen
  isSome : d.system.pc.cecIsOpen = true → d.object.cec.isSome = true

theorem initial_kept (c : Settings) : (initial c).Kept .unloaded :=
  ⟨initial_holds,fun _ => rfl,fun h => by simp [initial,System.initial,Pc.cecIsOpen] at h⟩

section
variable {d d' : CecSystem} {l : Libcec} {es : List CecEvent}

theorem Kept.moved (h : d.Kept l) {t : System} (hthrew : d.system.pc ≠ .threw)
    (hopen : t.pc.cecIsOpen = d.system.pc.cecIsOpen) : Kept { d with system := t } l :=
  ⟨h.holds,fun _ => (h.isOpen hthrew).trans hopen.symm,fun ht => h.isSome (hopen ▸ ht)⟩

theorem Kept.aside (h : d.Kept l) {t : System} {fs : List Event} (ha : d.system.Aside t fs) :
    Kept { d with system := t } l :=
  ⟨h.holds,fun hp => by rw [ha.pc] at hp ⊢; exact h.isOpen hp,fun ht => h.isSome (ha.pc ▸ ht)⟩

theorem Kept.opening (h : d.Kept l) (hp : d.system.pc = .cecOpen) (device : String) (ok : Bool)
    (out : LibcecOutcome) {t : System}
    (ht : t.pc = if (d.statement device ok out).1.1 then .lircOpen else .threw) :
    ∃ l', (d.statement device ok out).2.foldlM Libcec.record l = some l' ∧
      Kept ⟨t,(d.statement device ok out).1.2⟩ l' := by
  have hclosed : l.isOpen = false := (h.isOpen (by simp [hp])).trans (by rw [hp]; rfl)
  have hst : d.statement device ok out = (((d.object.openNamed device out).1.2.isNone,
      (d.object.openNamed device out).1.1),(d.object.openNamed device out).2) := by
    simp [statement,hp]
  obtain ⟨l',hcalls,hopen,hholds,hsome⟩ := h.holds.openNamed hclosed device out
  rw [hst] at ht ⊢
  refine ⟨l',hcalls,hholds,fun hthrew => ?_,fun hcec => ?_⟩
  · cases hthrow : (d.object.openNamed device out).1.2 with
    | some what => exact absurd (by simpa [hthrow] using ht) hthrew
    | none =>
      rw [hopen,hthrow,show t.pc = .lircOpen by simpa [hthrow] using ht]
      rfl
  · cases hthrow : (d.object.openNamed device out).1.2 with
    | some what =>
      rw [show t.pc = .threw by simpa [hthrow] using ht] at hcec
      simp [Pc.cecIsOpen] at hcec
    | none => exact hsome hthrow

theorem Kept.closing (h : d.Kept l) (hthrew : d.system.pc ≠ .threw)
    (hp : d.system.pc.cecIsOpen = true) (makeInactive : Bool) {t : System}
    (ht : t.pc.cecIsOpen = false) :
    ∃ l', (d.object.close makeInactive).foldlM Libcec.record l = some l' ∧
      Kept ⟨t,d.object⟩ l' := by
  refine ⟨_,h.holds.close ((h.isOpen hthrew).trans hp) (h.isSome hp) makeInactive,
    h.holds.congr rfl rfl,fun _ => ht.symm,fun hcec => ?_⟩
  have hcec : t.pc.cecIsOpen = true := hcec
  simp [ht] at hcec

theorem statement_lircOpen (hp : d.system.pc = .lircOpen) (device : String) (ok : Bool)
    (out : LibcecOutcome) : d.statement device ok out =
      ((ok,d.object),if ok then [] else d.object.close (!d.system.restart)) := by
  simp [statement,hp]

theorem Kept.silent (h : d.Kept l) {device : String} {ok : Bool} {out : LibcecOutcome}
    (hst : d.statement device ok out = ((ok,d.object),[])) {t : System}
    (hthrew : d.system.pc ≠ .threw) (hopen : t.pc.cecIsOpen = d.system.pc.cecIsOpen) :
    ∃ l', (d.statement device ok out).2.foldlM Libcec.record l = some l' ∧
      Kept ⟨t,(d.statement device ok out).1.2⟩ l' := by
  rw [hst]
  exact ⟨l,rfl,h.moved hthrew hopen⟩

theorem Kept.activating (h : d.Kept l) (hp : d.system.pc = .makeActive) (device : String)
    (ok : Bool) (out : LibcecOutcome) {t : System} (ht : t.pc = .pass ∨ t.pc = .threw) :
    ∃ l', (d.statement device ok out).2.foldlM Libcec.record l = some l' ∧
      Kept ⟨t,(d.statement device ok out).1.2⟩ l' := by
  have hopen : l.isOpen = true := (h.isOpen (by simp [hp])).trans (by rw [hp]; rfl)
  have hsome := h.isSome (by rw [hp]; rfl)
  have hst : d.statement device ok out =
      ((ok,d.object),if d.system.main.makeActive then d.object.makeActive ok else []) := by
    simp [statement,hp]
  have hcalls : (if d.system.main.makeActive then d.object.makeActive ok else []).foldlM
      Libcec.record l = some l := by
    cases d.system.main.makeActive
    · rfl
    · exact h.holds.makeActive hopen hsome ok
  rw [hst]
  refine ⟨l,hcalls,h.holds,fun hthrew => ?_,fun _ => hsome⟩
  rcases ht with hpass | hgone
  · rw [hopen,show (CecSystem.mk t d.object).system.pc = .pass from hpass]
    rfl
  · exact absurd hgone hthrew

theorem Kept.loopStep (h : d.Kept l) (device : String) (ok : Bool) (out : LibcecOutcome)
    {t : System} {fs : List Event}
    (hs : d.system.loopStep (d.statement device ok out).1.1 = some (t,fs)) :
    ∃ l', (d.statement device ok out).2.foldlM Libcec.record l = some l' ∧
      Kept ⟨t,(d.statement device ok out).1.2⟩ l' := by
  cases System.loopStep_move hs with
  | opened hp | openThrew hp =>
    refine h.opening hp device ok out ?_
    simp only [System.loopStep,hp,Option.some.injEq,Prod.mk.injEq,System.mk.injEq] at hs
    exact hs.1.2.2.1.symm
  | lircOpened hp =>
    rw [statement_lircOpen hp] at hs ⊢
    cases ok with
    | true => exact ⟨l,rfl,h.moved (by simp [hp]) (by rw [hp]; rfl)⟩
    | false => simp [System.loopStep,hp] at hs
  | lircFailed hp =>
    rw [statement_lircOpen hp] at hs ⊢
    cases ok with
    | true => simp [System.loopStep,hp] at hs
    | false => exact h.closing (by simp [hp]) (by rw [hp]; rfl) _ rfl
  | activated hp ha | notActivated hp ha => exact h.activating hp device ok out (.inl rfl)
  | activateThrew hp ha => exact h.activating hp device ok out (.inr rfl)
  | cecClosed hp =>
    have hst : d.statement device ok out =
        ((ok,d.object),d.object.close (!d.system.restart)) := by simp [statement,hp]
    rw [hst]
    exact h.closing (by simp [hp]) (by rw [hp]; rfl) _ rfl
  | started hp | installed hp | passed hp | again hp | left hp | signalsReset hp
  | lircClosed hp | reopened hp | returned hp =>
    exact h.silent (by simp [statement,hp]) (by simp [hp]) (by rw [hp]; rfl)

theorem loopTrace_append (tr es : List CecEvent) :
    loopTrace (tr ++ es) = loopTrace tr ++ loopTrace es := by simp [loopTrace]

theorem libcecCalls_append (tr es : List CecEvent) :
    libcecCalls (tr ++ es) = libcecCalls tr ++ libcecCalls es := by simp [libcecCalls]

theorem loopTrace_main (es : List Event) : loopTrace (es.map .main) = es := by
  rw [loopTrace,List.filterMap_map]
  exact List.filterMap_some

theorem libcecCalls_main (es : List Event) : libcecCalls (es.map .main) = [] := by
  rw [libcecCalls,List.filterMap_map]
  exact List.filterMap_eq_nil_iff.mpr fun _ _ => rfl

theorem loopTrace_libcec (calls : List LibcecCall) : loopTrace (calls.map .libcec) = [] := by
  rw [loopTrace,List.filterMap_map]
  exact List.filterMap_eq_nil_iff.mpr fun _ _ => rfl

theorem libcecCalls_libcec (calls : List LibcecCall) :
    libcecCalls (calls.map .libcec) = calls := by
  rw [libcecCalls,List.filterMap_map]
  exact List.filterMap_some

theorem Kept.step (h : d.Kept l) {device : String} {a : CecAction}
    (hs : d.step device a = some (d',es)) :
    (∃ b, d.system.step b = some (d'.system,loopTrace es)) ∧
      ∃ l', (libcecCalls es).foldlM Libcec.record l = some l' ∧ d'.Kept l' := by
  cases a with
  | loop ok out =>
    simp only [CecSystem.step,Option.bind_eq_bind,Option.bind_eq_some_iff,Option.some.injEq,
      Prod.mk.injEq] at hs
    obtain ⟨⟨t,fs⟩,hstep,rfl,rfl⟩ := hs
    rw [loopTrace_append,loopTrace_libcec,loopTrace_main,libcecCalls_append,libcecCalls_libcec,
      libcecCalls_main,List.nil_append,List.append_nil]
    refine ⟨⟨_,hstep⟩,?_⟩
    rcases (System.step_cases hstep).2 with ⟨ok',ha,hl⟩ | ⟨_,ha,_⟩ | ⟨_,ha,_⟩
    · obtain rfl := Action.loop.inj ha
      exact h.loopStep device ok out hl
    · simp at ha
    · simp at ha
  | callback c =>
    simp only [CecSystem.step,Option.bind_eq_bind,Option.bind_eq_some_iff,Option.some.injEq,
      Prod.mk.injEq] at hs
    obtain ⟨⟨t,fs⟩,hstep,rfl,rfl⟩ := hs
    rw [loopTrace_main,libcecCalls_main]
    exact ⟨⟨_,hstep⟩,l,rfl,h.aside (System.step_aside hstep (by simp))⟩
  | signal sigNum =>
    simp only [CecSystem.step,Option.bind_eq_bind,Option.bind_eq_some_iff,Option.some.injEq,
      Prod.mk.injEq] at hs
    obtain ⟨⟨t,fs⟩,hstep,rfl,rfl⟩ := hs
    rw [loopTrace_main,libcecCalls_main]
    exact ⟨⟨_,hstep⟩,l,rfl,h.aside (System.step_aside hstep (by simp))⟩

/-- Over all sessions, whatever libcec answers, `Cec` makes its calls in the order libcec asks
for: no `assert(cec)` fails, an adapter is opened only while none is and after a search for it,
activated and closed only while one is. `cout` has its buffer back after each statement, and the destructor deletes the
one object that `LibCecInitialise` gave. -/
theorem libcecCalls_inOrder {c : Settings} {device : String} {as : List CecAction}
    {tr : List CecEvent} (hr : run (CecSystem.step device) (.initial c) as = some (d,tr)) :
    (∃ bs, run System.step (.initial c) bs = some (d.system,loopTrace tr)) ∧
      d.object.cout = .initial ∧
      (∃ l, (libcecCalls tr).foldlM Libcec.record .unloaded = some l ∧
        l.adapter = d.object.cec ∧
        (d.system.pc ≠ .threw → l.isOpen = d.system.pc.cecIsOpen)) ∧
      ∃ l, (libcecCalls tr ++ d.object.destroy.2).foldlM Libcec.record .unloaded = some l ∧
        l.adapter = none := by
  have hI : (∃ bs, run System.step (.initial c) bs = some (d.system,loopTrace tr)) ∧
      ∃ l, (libcecCalls tr).foldlM Libcec.record .unloaded = some l ∧ d.Kept l := by
    refine invariant (I := fun d tr =>
      (∃ bs, run System.step (.initial c) bs = some (CecSystem.system d,loopTrace tr)) ∧
        ∃ l, (libcecCalls tr).foldlM Libcec.record .unloaded = some l ∧ d.Kept l) ?_ ?_ hr
    · rintro d tr a d' es ⟨⟨bs,hbs⟩,l,hcalls,hkept⟩ hs
      obtain ⟨⟨b,hb⟩,l',hmore,hkept'⟩ := hkept.step hs
      refine ⟨⟨bs ++ [b],?_⟩,l',?_,hkept'⟩
      · rw [loopTrace_append]
        exact run_append_iff.mpr ⟨_,_,_,hbs,run_singleton_iff.mpr hb,rfl⟩
      · rw [libcecCalls_append,List.foldlM_append,hcalls]
        exact hmore
    · exact ⟨⟨[],rfl⟩,.unloaded,rfl,initial_kept c⟩
  obtain ⟨hmain,l,hcalls,hkept⟩ := hI
  obtain ⟨l',hdestroy,hgone⟩ := hkept.holds.destroy
  refine ⟨hmain,hkept.holds.cout,⟨l,hcalls,hkept.holds.adapter,hkept.isOpen⟩,l',?_,hgone⟩
  rw [List.foldlM_append,hcalls]
  exact hdestroy

end

def twoOpened : List CecAction :=
  List.replicate 6 (.loop true ⟨some 7,1,fun _ => ⟨"a","ttyACM0"⟩,fun _ => true⟩) ++
    .callback .restart ::
    (List.replicate 11 (.loop true ⟨none,1,fun _ => ⟨"a","ttyACM0"⟩,fun _ => true⟩) ++
      [.loop false ⟨none,1,fun _ => ⟨"a","ttyACM0"⟩,fun _ => true⟩])

theorem libcecCalls_inOrder_restart :
    ∃ d tr, run (step "") (.initial .none) twoOpened = some (d,tr) ∧
      libcecCalls tr = [.initialise (some 7),.initVideoStandalone 7,.findAdapters 7,
        .openAdapter 7 "ttyACM0" true,.setActiveSource 7 true,.close 7,.findAdapters 7,
        .openAdapter 7 "ttyACM0" true,.setActiveSource 7 false] ∧
      ∃ l, (libcecCalls tr ++ d.object.destroy.2).foldlM Libcec.record .unloaded = some l ∧
        l.adapter = none := by
  have h : (run (step "") (.initial .none) twoOpened).map (fun r => libcecCalls r.2) =
      some [.initialise (some 7),.initVideoStandalone 7,.findAdapters 7,
        .openAdapter 7 "ttyACM0" true,.setActiveSource 7 true,.close 7,.findAdapters 7,
        .openAdapter 7 "ttyACM0" true,.setActiveSource 7 false] := by decide
  obtain ⟨⟨d,tr⟩,hr,hcalls⟩ := Option.map_eq_some_iff.mp h
  exact ⟨d,tr,hr,hcalls,(libcecCalls_inOrder hr).2.2.2⟩

end CecSystem

end Ceclircd
