import Ceclircd.LoopSteps
set_option autoImplicit false

/-! What is open, and which handlers are installed, when `Main::loop` is left. -/

namespace Ceclircd
open RunTrace

def Event.cecCall? : Event → Option Bool
  | .cecOpen true => some true
  | .cecClose _ => some false
  | _ => none

def Event.lircCall? : Event → Option Bool
  | .lircOpen true => some true
  | .lircClose => some false
  | _ => none

def cecCalls (tr : List Event) : List Bool := tr.filterMap Event.cecCall?
def lircCalls (tr : List Event) : List Bool := tr.filterMap Event.lircCall?

/-- Each open (`true`) is followed by exactly one close. -/
inductive Balanced : List Bool → Prop where
  | nil : Balanced []
  | pair {calls : List Bool} (h : Balanced calls) : Balanced (calls ++ [true,false])

/-- Balanced but for the resource that is open now, if it is. -/
def Holding : Bool → List Bool → Prop
  | false, calls => Balanced calls
  | true, calls => ∃ before, calls = before ++ [true] ∧ Balanced before

theorem Holding.kept {b : Bool} {calls : List Bool} (h : Holding b calls) :
    Holding b (calls ++ []) := by simpa using h

theorem Holding.opened {calls : List Bool} (h : Holding false calls) :
    Holding true (calls ++ [true]) := ⟨calls,rfl,h⟩

theorem Holding.closed {calls : List Bool} (h : Holding true calls) :
    Holding false (calls ++ [false]) := by
  obtain ⟨before,rfl,hb⟩ := h
  rw [List.append_assoc]
  exact hb.pair

structure CleanedUp (s : System) (tr : List Event) : Prop where
  cec : Balanced (cecCalls tr)
  lirc : Balanced (lircCalls tr)
  stopped : s.main.running = false
  defaults : ∀ sigNum, s.disposition sigNum = .default

def Pc.left : Pc → Bool
  | .returned | .threw => true
  | _ => false

def Pc.cecIsOpen : Pc → Bool
  | .cecOpen | .lircClose | .whileRestart | .returned | .threw => false
  | _ => true

def Pc.lircIsOpen : Pc → Bool
  | .cecOpen | .lircOpen | .whileRestart | .returned | .threw => false
  | _ => true

/-- Where `running` can only be false, and where it can only be true. -/
def Pc.runningIs : Pc → Option Bool
  | .sigaction | .makeActive => some true
  | .pass | .wait => none
  | _ => some false

def Pc.defaults : Pc → Bool
  | .makeActive | .pass | .wait | .signalReset => false
  | _ => true

theorem cecCalls_append (tr es : List Event) : cecCalls (tr ++ es) = cecCalls tr ++ cecCalls es :=
  List.filterMap_append

theorem lircCalls_append (tr es : List Event) :
    lircCalls (tr ++ es) = lircCalls tr ++ lircCalls es := List.filterMap_append

theorem cecCalls_loopEvents (tr : List Event) : cecCalls (loopEvents tr) = cecCalls tr := by
  simp only [cecCalls,loopEvents,List.filterMap_filter]
  congr
  funext e
  cases e <;> rfl

theorem lircCalls_loopEvents (tr : List Event) : lircCalls (loopEvents tr) = lircCalls tr := by
  simp only [lircCalls,loopEvents,List.filterMap_filter]
  congr
  funext e
  cases e <;> rfl

structure Calm (es : List Event) : Prop where
  cec : cecCalls es = []
  lirc : lircCalls es = []
  active : .makeActive false ∉ es

theorem calm_of_loopEvents {es : List Event} {cs : List Command}
    (h : loopEvents es = cs.map .processed) : Calm es := by
  refine ⟨?_,?_,fun hmem => ?_⟩
  · rw [← cecCalls_loopEvents,h,cecCalls,List.filterMap_map]
    exact List.filterMap_eq_nil_iff.mpr fun c _ => rfl
  · rw [← lircCalls_loopEvents,h,lircCalls,List.filterMap_map]
    exact List.filterMap_eq_nil_iff.mpr fun c _ => rfl
  · have hle := mem_loopEvents hmem rfl
    simp [h] at hle

/-- Every statement that was reached undid or kept exactly what its place says. -/
structure Tidy (s : System) (tr : List Event) : Prop where
  cec : Holding s.pc.cecIsOpen (cecCalls tr)
  lirc : Holding s.pc.lircIsOpen (lircCalls tr)
  running : ∀ b, s.pc.runningIs = some b → s.main.running = b
  defaults : s.pc.defaults = true → ∀ sigNum, s.disposition sigNum = .default
  active : .makeActive false ∉ tr

structure Abandoned (s : System) (tr : List Event) : Prop where
  pc : s.pc = .threw
  running : s.main.running = true
  active : .makeActive false ∈ tr

theorem Tidy.calm {s t : System} {tr es : List Event} (h : Tidy s tr) (he : Calm es)
    (hcec : t.pc.cecIsOpen = s.pc.cecIsOpen) (hlirc : t.pc.lircIsOpen = s.pc.lircIsOpen)
    (hrun : ∀ b, t.pc.runningIs = some b → t.main.running = b)
    (hdef : t.pc.defaults = true → ∀ sigNum, t.disposition sigNum = .default) :
    Tidy t (tr ++ es) := by
  refine ⟨?_,?_,hrun,hdef,by simp [h.active,he.active]⟩
  · rw [cecCalls_append,he.cec,List.append_nil,hcec]
    exact h.cec
  · rw [lircCalls_append,he.lirc,List.append_nil,hlirc]
    exact h.lirc

theorem System.deliver_disposition (s : System) (sigNum : Signal)
    (h : s.disposition sigNum = .default) :
    (s.deliver sigNum).1.disposition = s.disposition := by
  simp [deliver,h]

theorem Tidy.aside {s t : System} {tr es : List Event} {a : Action} (h : Tidy s tr)
    (hs : s.step a = some (t,es)) (hl : ∀ ok, a ≠ .loop ok) : Tidy t (tr ++ es) := by
  have ha := System.step_aside hs hl
  have hcalm : Calm es := @calm_of_loopEvents es [] ha.main.quiet
  refine h.calm hcalm (by rw [ha.pc]) (by rw [ha.pc]) ?_ fun hp => ?_
  · rw [ha.pc,ha.main.running]
    exact h.running
  · rw [ha.pc] at hp
    have hdef := h.defaults hp
    rcases (System.step_cases hs).2 with ⟨ok,rfl,_⟩ | ⟨c,_,rfl,_⟩ | ⟨n,_,hd⟩
    · exact absurd rfl (hl ok)
    · exact hdef
    · have hdisp := s.deliver_disposition n (hdef n)
      rw [← hd] at hdisp
      rw [hdisp]
      exact hdef

theorem Tidy.move {s t : System} {tr es : List Event} (h : Tidy s tr) (hm : LoopMove s t es) :
    Tidy t (tr ++ es) ∨ Abandoned t (tr ++ es) := by
  have hcec := h.cec
  have hlirc := h.lirc
  have hrun := h.running
  have hdef := h.defaults
  cases hm with
  | opened hp =>
    rw [hp] at hcec hlirc hrun hdef
    exact .inl ⟨by rw [cecCalls_append]; exact hcec.opened,
      by rw [lircCalls_append]; exact hlirc.kept,hrun,hdef,
      by simp [h.active]⟩
  | lircOpened hp =>
    rw [hp] at hcec hlirc hrun hdef
    exact .inl ⟨by rw [cecCalls_append]; exact hcec.kept,
      by rw [lircCalls_append]; exact hlirc.opened,hrun,hdef,by simp [h.active]⟩
  | lircFailed hp =>
    rw [hp] at hcec hlirc hrun
    exact .inl ⟨by rw [cecCalls_append]; exact hcec.closed,
      by rw [lircCalls_append]; exact hlirc.kept,hrun,
      fun _ _ => rfl,by simp [h.active]⟩
  | cecClosed hp =>
    rw [hp] at hcec hlirc hrun hdef
    exact .inl ⟨by rw [cecCalls_append]; exact hcec.closed,
      by rw [lircCalls_append]; exact hlirc.kept,hrun,hdef,
      by simp [h.active]⟩
  | lircClosed hp =>
    rw [hp] at hcec hlirc hrun hdef
    exact .inl ⟨by rw [cecCalls_append]; exact hcec.kept,
      by rw [lircCalls_append]; exact hlirc.closed,hrun,hdef,by simp [h.active]⟩
  | activateThrew hp ha =>
    rw [hp] at hrun
    exact .inr ⟨rfl,hrun true rfl,by simp⟩
  | passed hp m restart es hd =>
    exact .inl (h.calm (calm_of_loopEvents hd.loopEvents_eq) (by rw [hp]; rfl) (by rw [hp]; rfl)
      (by simp [Pc.runningIs]) (by simp [Pc.defaults]))
  | started hp =>
    rw [hp] at hdef
    exact .inl (h.calm ⟨rfl,rfl,by simp⟩ (by rw [hp]; rfl) (by rw [hp]; rfl)
      (by simp [Pc.runningIs]) hdef)
  | installed hp =>
    rw [hp] at hrun
    exact .inl (h.calm ⟨rfl,rfl,by simp⟩ (by rw [hp]; rfl) (by rw [hp]; rfl) hrun
      (by simp [Pc.defaults]))
  | left hp hr =>
    exact .inl (h.calm ⟨rfl,rfl,by simp⟩ (by rw [hp]; rfl) (by rw [hp]; rfl)
      (by simp [Pc.runningIs,hr]) (by simp [Pc.defaults]))
  | signalsReset hp =>
    rw [hp] at hrun
    exact .inl (h.calm ⟨rfl,rfl,by simp⟩ (by rw [hp]; rfl) (by rw [hp]; rfl) hrun
      (fun _ _ => rfl))
  | activated hp _ | notActivated hp _ | again hp _ =>
    exact .inl (h.calm ⟨rfl,rfl,by simp⟩ (by rw [hp]; rfl) (by rw [hp]; rfl)
      (by simp [Pc.runningIs]) (by simp [Pc.defaults]))
  | openThrew hp | reopened hp _ | returned hp _ =>
    rw [hp] at hrun hdef
    exact .inl (h.calm ⟨rfl,rfl,by simp⟩ (by rw [hp]; rfl) (by rw [hp]; rfl) hrun hdef)

theorem Abandoned.step {s t : System} {tr es : List Event} {a : Action} (h : Abandoned s tr)
    (hs : s.step a = some (t,es)) : Abandoned t (tr ++ es) := by
  rcases System.step_move_or_aside hs with hm | ha
  · have hpc := h.pc
    cases hm <;> simp_all
  · exact ⟨ha.pc.trans h.pc,ha.main.running.trans h.running,by simp [h.active]⟩

theorem run_tidy {c : Settings} {as : List Action} {s : System} {tr : List Event}
    (hr : run System.step (.initial c) as = some (s,tr)) : Tidy s tr ∨ Abandoned s tr := by
  refine invariant (I := fun s tr => Tidy s tr ∨ Abandoned s tr) ?_ ?_ hr
  · rintro s tr a t es (h | h) hs
    · cases a with
      | loop ok => exact h.move (System.step_loop hs)
      | callback c => exact .inl (h.aside hs (by simp))
      | signal sigNum => exact .inl (h.aside hs (by simp))
    · exact .inr (h.step hs)
  · exact .inl ⟨.nil,.nil,by simp [System.initial,Main.initial,Pc.runningIs],fun _ _ => rfl,by simp⟩

/-- Whichever way the loop is left, everything is undone unless it was left by an
exception of `cec.makeActive`. -/
theorem cleanedUp_iff_makeActive_returned {c : Settings} {as : List Action} {s : System}
    {tr : List Event} (hr : run System.step (.initial c) as = some (s,tr))
    (hleft : s.pc.left = true) : CleanedUp s tr ↔ .makeActive false ∉ tr := by
  constructor
  · intro h hmem
    rcases run_tidy hr with ht | ha
    · exact ht.active hmem
    · have hrun := h.stopped
      simp [ha.running] at hrun
  · intro hno
    rcases run_tidy hr with ht | ha
    · obtain ⟨hcec,hlirc,hrun,hdef,_⟩ := ht
      cases hp : s.pc with
      | returned | threw =>
        rw [hp] at hcec hlirc hrun hdef
        exact ⟨hcec,hlirc,hrun false rfl,hdef rfl⟩
      | _ => simp [hp,Pc.left] at hleft
    · exact absurd ha.active hno

theorem cleanedUp_iff_makeActive_returned_lircFailed :
    ∃ s tr, run System.step (.initial .none)
        [.loop true,.loop true,.loop true,.loop true,.loop true,.callback .restart,
          .loop true,.loop true,.loop true,.loop true,.loop true,.loop true,
          .loop true,.loop false] = some (s,tr) ∧
      cecCalls tr = [true,false,true,false] ∧ CleanedUp s tr := by
  have h : (run System.step (.initial .none)
        [.loop true,.loop true,.loop true,.loop true,.loop true,.callback .restart,
          .loop true,.loop true,.loop true,.loop true,.loop true,.loop true,
          .loop true,.loop false]).map
            (fun r => (r.1.pc.left,cecCalls r.2,decide (.makeActive false ∈ r.2))) =
              some (true,[true,false,true,false],false) := by decide
  obtain ⟨⟨s,tr⟩,hr,heq⟩ := Option.map_eq_some_iff.mp h
  simp only [Prod.mk.injEq,decide_eq_false_iff_not] at heq
  exact ⟨s,tr,hr,heq.2.1,(cleanedUp_iff_makeActive_returned hr heq.1).mpr heq.2.2⟩

/-- `cec.makeActive` throws in the first session: the adapter and the socket stay
open, `running` stays true and the handlers stay installed. -/
theorem makeActive_throws_leaves_open :
    ∃ as s tr, run System.step (.initial .none) as = some (s,tr) ∧ s.pc = .threw ∧
      cecCalls tr = [true] ∧ lircCalls tr = [true] ∧ s.main.running = true ∧
      (∀ sigNum, s.disposition sigNum = .signalHandler) ∧ ¬ CleanedUp s tr := by
  refine ⟨[.loop true,.loop true,.loop true,.loop true,.loop false],_,_,rfl,rfl,rfl,rfl,rfl,
    fun _ => rfl,fun h => ?_⟩
  have hrun := h.stopped
  simp at hrun

end Ceclircd
