import Ceclircd.CommandQueue
import Mathlib.Data.List.Forall2
set_option autoImplicit false

/-! Which session a restart belongs to: the one whose connection raised the alert,
as long as alerts come while `running` is set and no restart is carried over. -/

namespace Ceclircd
open RunTrace

def sessionStep (n : Nat) : Event → Nat
  | .cecOpen true => n + 1
  | _ => n

/-- The number of times `cec.open` has returned: sessions are counted from 1. -/
def sessionCount (tr : List Event) : Nat := tr.foldl sessionStep 0

/-- The commands `f` picks out of a trace, each with the session it happened in. -/
def stamped (f : Event → Option Command) : Nat → List Event → List (Command × Nat)
  | _, [] => []
  | n, e :: es =>
      match f e with
      | some cmd => (cmd,n) :: stamped f (sessionStep n e) es
      | none => stamped f (sessionStep n e) es

def acceptedIn (tr : List Event) : List (Command × Nat) := stamped Event.accepted? 0 tr
def processedIn (tr : List Event) : List (Command × Nat) := stamped Event.processed? 0 tr

theorem stamped_append (f : Event → Option Command) (n : Nat) (tr es : List Event) :
    stamped f n (tr ++ es) = stamped f n tr ++ stamped f (tr.foldl sessionStep n) es := by
  induction tr generalizing n with
  | nil => rfl
  | cons e tr ih =>
    simp only [List.cons_append,stamped,List.foldl_cons]
    cases f e <;> simp [ih]

theorem stamped_of_same_session (f : Event → Option Command) (n : Nat) (es : List Event)
    (h : .cecOpen true ∉ es) : es.foldl sessionStep n = n ∧
      stamped f n es = (es.filterMap f).map (fun cmd => (cmd,n)) := by
  induction es with
  | nil => exact ⟨rfl,rfl⟩
  | cons e es ih =>
    simp only [List.mem_cons,not_or] at h
    have hn : sessionStep n e = n := by
      unfold sessionStep
      split
      · simp at h
      · rfl
    have hi := ih h.2
    constructor
    · rw [List.foldl_cons,hn]
      exact hi.1
    · simp only [stamped,hn,hi.2]
      cases hf : f e <;> simp [hf]

/-- From the return of `cec.open` to the end of the command loop. -/
def Pc.connected : Pc → Bool
  | .lircOpen | .setRunning | .sigaction | .makeActive | .pass | .wait => true
  | _ => false

def Alert.raisesRestart : Alert → Bool
  | .serviceDevice | .other _ => false
  | _ => true

def AlertAccepted (s : System) (a : Action) : Prop :=
  ∀ alert, a = .callback (.alert alert) → alert.raisesRestart = true →
    s.pc.connected = true → ∀ t es, s.step a = some (t,es) → es = [.accepted .restart]

/-- The `i`th command processed is the `i`th accepted one; a restart must have been
accepted in the session that processes it. -/
def RestartsOwnSession (tr : List Event) : Prop :=
  ∀ i k : Nat, (processedIn tr)[i]? = some (Command.restart,k) →
    (acceptedIn tr)[i]? = some (Command.restart,k)

/-- The alert comes while `running` is set, and `cec.open` returns with no restart
left in the queue. -/
def AlertInTime (s : System) : Action → Prop
  | .callback (.alert alert) =>
      alert.raisesRestart = true → s.pc.connected = true → s.main.running = true
  | .loop ok => ok = true → s.pc = .cecOpen → .restart ∉ s.main.commands
  | _ => True

instance (s : System) (a : Action) : Decidable (AlertInTime s a) :=
  match a with
  | .callback c =>
      match c with
      | .alert alert => inferInstanceAs (Decidable (alert.raisesRestart = true →
          s.pc.connected = true → s.main.running = true))
      | .keyPress _ | .command _ | .configurationChanged _ | .menuStateChanged
      | .sourceActivated _ _ | .stop | .restart => .isTrue trivial
  | .loop ok => inferInstanceAs (Decidable (ok = true → s.pc = .cecOpen →
      .restart ∉ s.main.commands))
  | .signal _ => .isTrue trivial

theorem alertInTime_accepted {s : System} {a : Action} (h : AlertInTime s a) :
    AlertAccepted s a := by
  rintro alert rfl hr hc t es hs
  have hrun : s.main.running = true := h hr hc
  rcases (System.step_cases hs).2 with ⟨_,ha,_⟩ | ⟨c,ha,_,rfl⟩ | ⟨_,ha,_⟩
  · simp at ha
  · simp only [Action.callback.injEq] at ha
    subst ha
    cases alert <;> simp [Alert.raisesRestart] at hr <;>
      simp [Main.callback,Main.onCecAlert,Main.restart,Main.push,hrun]
  · simp at ha

def SameRestart (p a : Command × Nat) : Prop := p.1 = a.1 ∧ (p.1 = .restart → p = a)

theorem sameRestart_of_stamp {xs : List (Command × Nat)} {n : Nat}
    (h : ∀ x ∈ xs, x.1 = .restart → x.2 = n) :
    List.Forall₂ SameRestart ((xs.map Prod.fst).map (fun cmd => (cmd,n))) xs := by
  induction xs with
  | nil => exact .nil
  | cons x xs ih =>
    refine .cons ⟨rfl,fun hx => ?_⟩ (ih fun y hy => h y (by simp [hy]))
    have hn := h x (by simp) hx
    exact Prod.ext rfl hn.symm

def QueueStamped (s : System) (tr : List Event) : Prop :=
  ∃ old queued, acceptedIn tr = old ++ queued ∧ queued.map Prod.fst = s.main.commands ∧
    List.Forall₂ SameRestart (processedIn tr) old ∧
    ∀ q ∈ queued, q.1 = .restart → q.2 = sessionCount tr

theorem step_opens {s t : System} {a : Action} {es : List Event}
    (h : s.step a = some (t,es)) :
    (a = .loop true ∧ s.pc = .cecOpen ∧ es = [.cecOpen true] ∧
        t.main.commands = s.main.commands) ∨ .cecOpen true ∉ es := by
  rcases (System.step_cases h).2 with ⟨ok,rfl,hl⟩ | ⟨c,rfl,_⟩ | ⟨n,rfl,_⟩
  · cases System.loopStep_move hl with
    | opened hp =>
      cases ok with
      | true => exact .inl ⟨rfl,hp,rfl,rfl⟩
      | false => simp [System.loopStep,hp] at hl
    | passed hp m restart es hd =>
      refine .inr fun hmem => ?_
      have hle := mem_loopEvents hmem rfl
      simp [hd.loopEvents_eq] at hle
    | _ => exact .inr (by simp)
  all_goals
    have ha := System.step_aside h (by simp)
    refine .inr fun hmem => ?_
    have hle := mem_loopEvents hmem rfl
    simp [ha.main.quiet] at hle

theorem QueueStamped.opened {s t : System} {tr : List Event} (hI : QueueStamped s tr)
    (hno : .restart ∉ s.main.commands) (hcmd : t.main.commands = s.main.commands) :
    QueueStamped t (tr ++ [.cecOpen true]) := by
  obtain ⟨old,queued,hacc,hmap,hproc,_⟩ := hI
  refine ⟨old,queued,?_,by rw [hcmd,hmap],?_,?_⟩
  · rw [acceptedIn,stamped_append,← acceptedIn,hacc]
    exact List.append_nil _
  · rw [processedIn,stamped_append,← processedIn]
    simpa [stamped,Event.processed?] using hproc
  · intro q hq hr
    have hmem : q.1 ∈ s.main.commands := hmap ▸ List.mem_map_of_mem hq
    exact absurd (hr ▸ hmem) hno

/-- Within a session, what is accepted joins the queue under its number, and what is
processed leaves it with the number it was accepted under. -/
theorem QueueStamped.same_session {s t : System} {tr es : List Event} {a : Action}
    (hI : QueueStamped s tr) (hs : s.step a = some (t,es)) (hsame : .cecOpen true ∉ es) :
    QueueStamped t (tr ++ es) := by
  obtain ⟨old,queued,hacc,hmap,hproc,hown⟩ := hI
  have hA := stamped_of_same_session Event.accepted? (sessionCount tr) es hsame
  have hP := stamped_of_same_session Event.processed? (sessionCount tr) es hsame
  have hcount : sessionCount (tr ++ es) = sessionCount tr := by
    rw [sessionCount,List.foldl_append]
    exact hA.1
  have hnew : ∀ q ∈ queued ++ (accepted es).map (fun cmd => (cmd,sessionCount tr)),
      q.1 = .restart → q.2 = sessionCount tr := by
    intro q hq hr
    rcases List.mem_append.mp hq with h | h
    · exact hown q h hr
    · obtain ⟨_,_,rfl⟩ := List.mem_map.mp h
      rfl
  have hfst : (queued ++ (accepted es).map (fun cmd => (cmd,sessionCount tr))).map Prod.fst =
      processed es ++ t.main.commands := by
    rw [← step_queue hs,List.map_append,hmap,List.map_map]
    simp [Function.comp_def]
  have hall : acceptedIn (tr ++ es) =
      old ++ (queued ++ (accepted es).map (fun cmd => (cmd,sessionCount tr))) := by
    rw [acceptedIn,stamped_append,← acceptedIn,hacc,List.append_assoc]
    exact congrArg (fun xs => old ++ (queued ++ xs)) hA.2
  generalize queued ++ (accepted es).map (fun cmd => (cmd,sessionCount tr)) = rest
    at hnew hfst hall
  have htake : (rest.take (processed es).length).map Prod.fst = processed es := by
    rw [List.map_take,hfst,List.take_left]
  have hdrop : (rest.drop (processed es).length).map Prod.fst = t.main.commands := by
    rw [List.map_drop,hfst,List.drop_left]
  have hmatch := sameRestart_of_stamp (fun x (hx : x ∈ rest.take (processed es).length) =>
    hnew x (List.mem_of_mem_take hx))
  rw [htake] at hmatch
  have hsplit : processedIn (tr ++ es) =
      processedIn tr ++ (processed es).map (fun cmd => (cmd,sessionCount tr)) := by
    rw [processedIn,stamped_append,← processedIn]
    exact congrArg (processedIn tr ++ ·) hP.2
  refine ⟨old ++ rest.take (processed es).length,rest.drop (processed es).length,?_,hdrop,?_,?_⟩
  · rw [hall,List.append_assoc,List.take_append_drop]
  · rw [hsplit]
    exact List.rel_append hproc hmatch
  · intro q hq
    rw [hcount]
    exact hnew q (List.mem_of_mem_drop hq)

theorem step_queueStamped {s t : System} {tr es : List Event} {a : Action}
    (hI : QueueStamped s tr) (hg : AlertInTime s a) (hs : s.step a = some (t,es)) :
    QueueStamped t (tr ++ es) := by
  rcases step_opens hs with ⟨rfl,hpc,rfl,hcmd⟩ | hsame
  · exact hI.opened (hg rfl hpc) hcmd
  · exact hI.same_session hs hsame

theorem QueueStamped.restartsOwnSession {s : System} {tr : List Event}
    (h : QueueStamped s tr) : RestartsOwnSession tr := by
  obtain ⟨old,queued,hacc,_,hproc,_⟩ := h
  intro i k hi
  rw [hacc]
  generalize processedIn tr = ps at hi hproc
  clear hacc
  induction hproc generalizing i with
  | nil => simp at hi
  | cons hpa _ ih =>
    cases i with
    | zero =>
      simp only [List.getElem?_cons_zero,Option.some.injEq] at hi
      subst hi
      simp [← hpa.2 rfl]
    | succ i => simpa using ih i (by simpa using hi)

/-- In a run whose alerts come in time and which carries no restart over, no alert
against the live connection is dropped and no older one tears the session down. -/
theorem restart_belongs_to_session {c : Settings} {as : List Action} {s : System}
    {tr : List Event} (hr : run System.step (.initial c) as = some (s,tr))
    (hg : EveryStep System.step AlertInTime (.initial c) as) :
    EveryStep System.step AlertAccepted (.initial c) as ∧ RestartsOwnSession tr := by
  refine ⟨hg.mono fun _ _ h => alertInTime_accepted h,?_⟩
  have h0 : QueueStamped (.initial c) [] := ⟨[],[],rfl,rfl,.nil,by simp⟩
  have hq : QueueStamped s tr := invariant_of_everyStep
    (fun s tr a t es hI hga hs => step_queueStamped hI hga hs) h0 hg hr
  exact hq.restartsOwnSession

theorem restart_belongs_to_session_alert :
    ∃ s tr, run System.step (.initial .none)
        [.loop true,.loop true,.loop true,.callback (.alert .connectionLost),.loop true,.loop true,
          .loop true,.loop true,.loop true,.loop true,.loop true,.loop true,.loop true] =
          some (s,tr) ∧
      processedIn tr = [(.restart,1)] ∧ sessionCount tr = 2 ∧ RestartsOwnSession tr := by
  have h : (run System.step (.initial .none)
        [.loop true,.loop true,.loop true,.callback (.alert .connectionLost),.loop true,.loop true,
          .loop true,.loop true,.loop true,.loop true,.loop true,.loop true,.loop true]).map
            (fun r => (processedIn r.2,sessionCount r.2)) = some ([(.restart,1)],2) := by
    decide
  obtain ⟨⟨s,tr⟩,hr,heq⟩ := Option.map_eq_some_iff.mp h
  simp only [Prod.mk.injEq] at heq
  exact ⟨s,tr,hr,heq.1,heq.2,
    (restart_belongs_to_session hr (everyStep_of_check (by decide))).2⟩

/-- An alert between the return of `cec.open` and `running = true` is refused; and of
two alerts for one lost connection, the second tears down the session opened next. -/
theorem restart_crosses_sessions :
    ¬ EveryStep System.step AlertAccepted (.initial .none)
        [.loop true,.callback (.alert .connectionLost)] ∧
      ∃ s tr, run System.step (.initial .none)
          [.loop true,.loop true,.loop true,.loop true,.loop true,
            .callback (.alert .connectionLost),.callback (.alert .tvPollFailed),
            .loop true,.loop true,.loop true,.loop true,.loop true,.loop true,
            .loop true,.loop true,.loop true,.loop true,.loop true,.loop true] = some (s,tr) ∧
        ¬ RestartsOwnSession tr := by
  constructor
  · intro h
    have hr : run System.step (.initial .none) [.loop true] =
        some ({ System.initial .none with pc := .lircOpen },[.cecOpen true]) := rfl
    have ha := h [.loop true] (.callback (.alert .connectionLost)) [] _ _ rfl hr .connectionLost
      rfl rfl rfl _ _ rfl
    simp at ha
  · have h : (run System.step (.initial .none)
          [.loop true,.loop true,.loop true,.loop true,.loop true,
            .callback (.alert .connectionLost),.callback (.alert .tvPollFailed),
            .loop true,.loop true,.loop true,.loop true,.loop true,.loop true,
            .loop true,.loop true,.loop true,.loop true,.loop true,.loop true]).map
              (fun r => (processedIn r.2,acceptedIn r.2)) =
            some ([(.restart,1),(.restart,2)],[(.restart,1),(.restart,1)]) := by decide
    obtain ⟨⟨s,tr⟩,hr,heq⟩ := Option.map_eq_some_iff.mp h
    simp only [Prod.mk.injEq] at heq
    refine ⟨s,tr,hr,fun hown => ?_⟩
    have h1 := hown 1 2 (by rw [heq.1]; rfl)
    simp [heq.2] at h1

end Ceclircd
