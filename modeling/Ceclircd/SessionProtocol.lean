import Ceclircd.LoopProgress
import Ceclircd.CommandMonitor
import Mathlib.Data.List.Induction
set_option autoImplicit false

/-! What an observer may see of `Main::loop`, as an automaton over its own events that has no
queue, no threads and no signals; and that it allows neither more nor less than the loop. -/

namespace Ceclircd
open RunTrace

/-- Where a session stands. In the three `failed` phases `mylirc.Open` has returned false. -/
inductive Phase where
  | opening
  | opened
  | starting
  | started
  | installed
  | serving
  | ended
  | reset
  | closed
  | leaving
  | failed
  | failedReset
  | failedClosed
  | over
  deriving DecidableEq, Repr

/-- `active` decides whether the next session claims to be the active source, `restart`
whether there is one. -/
structure Session where
  phase : Phase
  active : Bool
  restart : Bool
  deriving DecidableEq, Repr

namespace Session

def initial (c : Settings) : Session := ⟨.opening,c.makeActive,false⟩

def next (p : Session) (e : Event) : Option Session :=
  match p.phase,e with
  | .opening,.cecOpen ok => some { p with phase := if ok then .opened else .over }
  | .opened,.lircOpen ok => some { p with phase := if ok then .starting else .failed }
  | .starting,.setRunning => some { p with phase := .started }
  | .started,.sigaction => some { p with phase := if p.active then .installed else .serving }
  | .installed,.makeActive ok => some { p with phase := if ok then .serving else .over }
  | .serving,.processed cmd =>
    some ⟨if cmd.endsSession then .ended else .serving,activeAfter p.active [cmd],
      p.restart || cmd == .restart⟩
  | .ended,.signalReset => some { p with phase := .reset }
  | .reset,.cecClose b => if b = !p.restart then some { p with phase := .closed } else none
  | .closed,.lircClose => some { p with phase := if p.restart then .opening else .leaving }
  | .leaving,.returned => some { p with phase := .over }
  | .failed,.signalReset => some { p with phase := .failedReset }
  | .failedReset,.cecClose b =>
    if b = !p.restart then some { p with phase := .failedClosed } else none
  | .failedClosed,.returned => some { p with phase := .over }
  | _,_ => none

/-- The statement that returns when `mylirc.Open` failed is over, or was not reached. -/
def settled (p : Session) : Bool :=
  match p.phase with
  | .failed | .failedReset | .failedClosed => false
  | _ => true

def behind (p : Session) : List Event :=
  match p.phase with
  | .failed => [.lircOpen false]
  | .failedReset => [.lircOpen false,.signalReset]
  | .failedClosed => [.lircOpen false,.signalReset,.cecClose (!p.restart)]
  | _ => []

def base (p : Session) : Session := if p.settled then p else { p with phase := .opened }

end Session

/-- The phase a state of the loop is in. The statements without an event stand where the
event before them left the session. -/
def System.phase (s : System) : Phase :=
  match s.pc with
  | .cecOpen => .opening
  | .lircOpen => .opened
  | .setRunning => .starting
  | .sigaction => .started
  | .makeActive => if s.main.makeActive then .installed else .serving
  | .pass => .serving
  | .wait => if s.main.running then .serving else .ended
  | .signalReset => .ended
  | .cecClose => .reset
  | .lircClose => .closed
  | .whileRestart => if s.restart then .opening else .leaving
  | .returned | .threw => .over

def System.session (s : System) : Session := ⟨s.phase,s.main.makeActive,s.restart⟩

variable {s t : System} {tr es : List Event} {p q : Session}

/-! The loop does nothing else. -/

theorem Session.serve (cs : List Command) (hno : ∀ c ∈ cs, c.endsSession = false)
    (hp : p.phase = .serving) :
    (cs.map Event.processed).foldlM Session.next p =
      some { p with active := activeAfter p.active cs } := by
  induction cs generalizing p with
  | nil => rfl
  | cons c cs ih =>
    have hc := hno c (by simp)
    have hres : (c == Command.restart) = false := by cases c <;> simp_all [Command.endsSession]
    have hnext : p.next (.processed c) = some { p with active := activeAfter p.active [c] } := by
      simp [Session.next,hp,hc,hres]
    have hrest := ih (p := { p with active := activeAfter p.active [c] })
      (fun d hd => hno d (by simp [hd])) hp
    rw [List.map_cons,List.foldlM_cons,hnext,← List.singleton_append (l := cs),activeAfter_append]
    exact hrest

theorem System.Aside.session (h : s.Aside t es) : t.session = s.session := by
  have hr : t.main.running = s.main.running := h.main.running
  have ha : t.main.makeActive = s.main.makeActive := h.main.makeActive
  simp only [System.session,System.phase,h.pc,h.restart,hr,ha]

theorem LoopMove.follows (h : LoopMove s t es) (hp : Placed s tr) :
    (loopEvents es).foldlM Session.next s.session = some t.session := by
  have hrun := hp.running
  cases h with
  | passed hpc m restart es hd =>
    have hm := hrun (by simp [hpc])
    have hserving : s.session.phase = .serving := by simp [System.session,System.phase,hpc]
    rw [hd.loopEvents_eq]
    rcases hd.outcome hm with ⟨hrun',_,hres,hall⟩ | ⟨init,c,hpr,hce,hrun',hres,hall⟩
    · rw [Session.serve _ hall hserving]
      simp [System.session,System.phase,hpc,hrun',hres,hd.active]
    · rw [hpr,List.map_append,List.foldlM_append,Session.serve init hall hserving]
      simp [System.session,System.phase,Session.next,hpc,hce,hrun',hres,hd.active,hpr,
        activeAfter_append]
  | notActivated hpc ha | activated hpc ha | activateThrew hpc ha => 
    simp [System.session,System.phase,Session.next,loopEvents,List.filter_cons,Event.ofLoop,hpc,ha]
  | again hpc hr | left hpc hr | reopened hpc hr | returned hpc hr =>
    simp [System.session,System.phase,Session.next,loopEvents,List.filter_cons,Event.ofLoop,hpc,hr]
  | installed hpc =>
    simp [System.session,System.phase,Session.next,loopEvents,List.filter_cons,Event.ofLoop,hpc]
  | _ hpc => simp [System.session,System.phase,Session.next,loopEvents,List.filter_cons,Event.ofLoop,hpc]

theorem run_follows {c : Settings} {as : List Action}
    (hr : run System.step (.initial c) as = some (s,tr)) :
    (loopEvents tr).foldlM Session.next (.initial c) = some s.session := by
  have h : Placed s tr ∧ (loopEvents tr).foldlM Session.next (.initial c) = some s.session := by
    refine invariant (I := fun s tr => Placed s tr ∧
      (loopEvents tr).foldlM Session.next (.initial c) = some s.session) ?_ ?_ hr
    · rintro s tr a t es ⟨hp,hI⟩ hs
      refine ⟨hp.step hs,?_⟩
      rw [loopEvents_append,List.foldlM_append,hI]
      rcases System.step_move_or_aside hs with hm | ha
      · exact hm.follows hp
      · rw [ha.main.quiet,ha.session]
        rfl
    · exact ⟨initial_placed c,rfl⟩
  exact h.2

/-! The loop does all of it. -/

structure System.Idle (s : System) : Prop where
  alive : s.killed = false
  commands : s.main.commands = []

def System.CanShow (s : System) (e : Event) : Prop :=
  ∃ bs t fs, run System.step s bs = some (t,fs) ∧ loopEvents fs = [e] ∧ t.Idle

theorem canShow_step {e : Event} {ok : Bool} (h : s.step (.loop ok) = some (t,es))
    (he : loopEvents es = [e]) (ht : t.Idle) : s.CanShow e :=
  ⟨[.loop ok],t,es,run_singleton_iff.mpr h,he,ht⟩

theorem canShow_silent {e : Event} {ok : Bool} (h : s.step (.loop ok) = some (t,[]))
    (ht : t.CanShow e) : s.CanShow e := by
  obtain ⟨bs,u,fs,hr,he,hu⟩ := ht
  exact ⟨.loop ok :: bs,u,fs,run_cons_iff.mpr ⟨t,[],fs,h,hr,rfl⟩,he,hu⟩

theorem System.Idle.loop {ok : Bool} (h : s.Idle) (hl : s.loopStep ok = some (t,es)) :
    s.step (.loop ok) = some (t,es) := by
  simp only [System.step,h.alive,Bool.false_eq_true,if_false,hl]

theorem Drained.one {m m' : Main} {restart restart' : Bool} {cmd : Command}
    (hd : Drained m restart m' restart' es) (hr : m.running = true) (hc : m.commands = [cmd]) :
    processed es = [cmd] ∧ m'.commands = [] := by
  have hqueue := hd.queue
  rw [hc] at hqueue
  rcases hd.outcome hr with ⟨_,hnil,_⟩ | ⟨init,c,hpr,_⟩
  · rw [hnil,List.append_nil] at hqueue
    exact ⟨hqueue.symm,hnil⟩
  · rw [hpr] at hqueue
    cases init with
    | nil => simpa [hpr,eq_comm] using hqueue
    | cons d init => simp at hqueue

/-- Any command can be pushed just before a pass, which then processes it alone. -/
theorem System.Idle.serves (h : s.Idle) (hpc : s.pc = .pass) (hr : s.main.running = true)
    (cmd : Command) : s.CanShow (.processed cmd) := by
  obtain ⟨cb,hcb⟩ := exists_pushing s.main cmd
  have hpush : s.step (.callback cb) =
      some ({ s with main := { s.main with commands := [cmd] } },[.accepted cmd]) := by
    simp [System.step,h.alive,hcb,Main.push,hr,h.commands]
  have hd := Main.commandPass_spec { s.main with commands := [cmd] } s.restart
  obtain ⟨hproc,hnil⟩ := hd.one hr rfl
  have hpass : System.step { s with main := { s.main with commands := [cmd] } } (.loop true) =
      some ({ s with
        main := (Main.commandPass { s.main with commands := [cmd] } s.restart).1.1
        restart := (Main.commandPass { s.main with commands := [cmd] } s.restart).1.2
        pc := .wait },(Main.commandPass { s.main with commands := [cmd] } s.restart).2) := by
    simp only [System.step,h.alive,Bool.false_eq_true,if_false,System.loopStep,hpc]
  refine ⟨[.callback cb,.loop true],_,_,run_cons_iff.mpr ⟨_,_,_,hpush,
    run_singleton_iff.mpr hpass,rfl⟩,?_,h.alive,hnil⟩
  rw [loopEvents_append,hd.loopEvents_eq,hproc]
  rfl

/-- Whatever the session allows next can happen next, a failing `mylirc.Open` apart: its
statement goes on to the return. -/
theorem System.Idle.canShow {e : Event} (h : s.Idle) (hp : Placed s tr)
    (hnext : s.session.next e = some q) (hf : e ≠ .lircOpen false) : s.CanShow e := by
  have hk := h.alive
  have hrun := hp.running
  cases hpc : s.pc with
  | cecOpen =>
    cases e <;> simp [Session.next,System.session,System.phase,hpc] at hnext
    case cecOpen ok =>
      have hl : s.loopStep ok =
          some ({ s with pc := if ok then .lircOpen else .threw },[.cecOpen ok]) := by
        simp only [System.loopStep,hpc]
      exact canShow_step (h.loop hl) rfl ⟨hk,h.commands⟩
  | lircOpen =>
    cases e <;> simp [Session.next,System.session,System.phase,hpc] at hnext
    case lircOpen ok =>
      have hok : ok = true := by simpa using hf
      have hl : s.loopStep true = some ({ s with pc := .setRunning },[.lircOpen true]) := by
        simp only [System.loopStep,hpc,if_true]
      exact canShow_step (h.loop hl) (by rw [hok]; rfl) ⟨hk,h.commands⟩
  | setRunning =>
    cases e <;> simp [Session.next,System.session,System.phase,hpc] at hnext
    have hl : s.loopStep true =
        some ({ s with main := { s.main with running := true }, pc := .sigaction },
          [.setRunning]) := by
      simp only [System.loopStep,hpc]
    exact canShow_step (h.loop hl) rfl ⟨hk,h.commands⟩
  | sigaction =>
    cases e <;> simp [Session.next,System.session,System.phase,hpc] at hnext
    have hl : s.loopStep true =
        some ({ s with pc := .makeActive, disposition := fun _ => .signalHandler },
          [.sigaction]) := by
      simp only [System.loopStep,hpc]
    exact canShow_step (h.loop hl) rfl ⟨hk,h.commands⟩
  | makeActive =>
    cases ha : s.main.makeActive with
    | true =>
      cases e <;> simp [Session.next,System.session,System.phase,hpc,ha] at hnext
      case makeActive ok =>
        have hl : s.loopStep ok =
            some ({ s with pc := if ok then .pass else .threw },[.makeActive ok]) := by
          simp only [System.loopStep,hpc,ha,if_true]
        exact canShow_step (h.loop hl) rfl ⟨hk,h.commands⟩
    | false =>
      cases e <;> simp [Session.next,System.session,System.phase,hpc,ha] at hnext
      case processed cmd =>
        have hl : s.loopStep true = some ({ s with pc := .pass },[]) := by
          simp only [System.loopStep,hpc,ha,Bool.false_eq_true,if_false]
        have hi : System.Idle { s with pc := .pass } := ⟨hk,h.commands⟩
        exact canShow_silent (h.loop hl) (hi.serves rfl (hrun (by simp [hpc])) cmd)
  | pass =>
    cases e <;> simp [Session.next,System.session,System.phase,hpc] at hnext
    case processed cmd => exact h.serves hpc (hrun (by simp [hpc])) cmd
  | wait =>
    cases hr : s.main.running with
    | true =>
      cases e <;> simp [Session.next,System.session,System.phase,hpc,hr] at hnext
      case processed cmd =>
        have hl : s.loopStep true = some ({ s with pc := .pass },[]) := by
          simp only [System.loopStep,hpc,hr,if_true]
        have hi : System.Idle { s with pc := .pass } := ⟨hk,h.commands⟩
        exact canShow_silent (h.loop hl) (hi.serves rfl hr cmd)
    | false =>
      cases e <;> simp [Session.next,System.session,System.phase,hpc,hr] at hnext
      have hl : s.loopStep true = some ({ s with pc := .signalReset },[]) := by
        simp only [System.loopStep,hpc,hr,Bool.false_eq_true,if_false]
      have hi : System.Idle { s with pc := .signalReset } := ⟨hk,h.commands⟩
      have hl' : System.loopStep { s with pc := .signalReset } true =
          some ({ s with pc := .cecClose, disposition := fun _ => .default },[.signalReset]) := rfl
      exact canShow_silent (h.loop hl) (canShow_step (hi.loop hl') rfl ⟨hk,h.commands⟩)
  | signalReset =>
    cases e <;> simp [Session.next,System.session,System.phase,hpc] at hnext
    have hl : s.loopStep true =
        some ({ s with pc := .cecClose, disposition := fun _ => .default },[.signalReset]) := by
      simp only [System.loopStep,hpc]
    exact canShow_step (h.loop hl) rfl ⟨hk,h.commands⟩
  | cecClose =>
    cases e <;> simp [Session.next,System.session,System.phase,hpc] at hnext
    case cecClose b =>
      have hl : s.loopStep true = some ({ s with pc := .lircClose },[.cecClose (!s.restart)]) := by
        simp only [System.loopStep,hpc]
      exact canShow_step (h.loop hl) (by rw [hnext.1]; rfl) ⟨hk,h.commands⟩
  | lircClose =>
    cases e <;> simp [Session.next,System.session,System.phase,hpc] at hnext
    have hl : s.loopStep true = some ({ s with pc := .whileRestart },[.lircClose]) := by
      simp only [System.loopStep,hpc]
    exact canShow_step (h.loop hl) rfl ⟨hk,h.commands⟩
  | whileRestart =>
    cases hr : s.restart with
    | true =>
      cases e <;> simp [Session.next,System.session,System.phase,hpc,hr] at hnext
      case cecOpen ok =>
        have hl : s.loopStep true = some ({ s with pc := .cecOpen },[]) := by
          simp only [System.loopStep,hpc,hr,if_true]
        have hi : System.Idle { s with pc := .cecOpen } := ⟨hk,h.commands⟩
        have hl' : System.loopStep { s with pc := .cecOpen } ok =
            some ({ s with pc := if ok then .lircOpen else .threw },[.cecOpen ok]) := rfl
        exact canShow_silent (h.loop hl) (canShow_step (hi.loop hl') rfl ⟨hk,h.commands⟩)
    | false =>
      cases e <;> simp [Session.next,System.session,System.phase,hpc,hr] at hnext
      have hl : s.loopStep true = some ({ s with pc := .returned },[.returned]) := by
        simp only [System.loopStep,hpc,hr,Bool.false_eq_true,if_false]
      exact canShow_step (h.loop hl) rfl ⟨hk,h.commands⟩
  | returned | threw =>
    cases e <;> simp [Session.next,System.session,System.phase,hpc] at hnext

theorem System.phase_lircOpen (h : s.phase = .opened) : s.pc = .lircOpen := by
  unfold System.phase at h
  cases hpc : s.pc with
  | lircOpen => rfl
  | makeActive | wait | whileRestart =>
    simp only [hpc] at h
    split at h <;> simp at h
  | _ => simp [hpc] at h

theorem System.session_settled (s : System) : s.session.settled = true := by
  unfold System.session System.phase Session.settled
  cases s.pc with
  | makeActive => cases s.main.makeActive <;> rfl
  | wait => cases s.main.running <;> rfl
  | whileRestart => cases s.restart <;> rfl
  | _ => rfl

theorem Session.next_settled {e : Event} (hp : p.settled = true) (h : p.next e = some q)
    (hf : e ≠ .lircOpen false) : q.settled = true := by
  unfold next at h
  split at h
  case h_2 ok hphase =>
    obtain rfl := Option.some.inj h
    cases ok with
    | true => rfl
    | false => exact absurd rfl hf
  case h_1 ok hphase | h_5 ok hphase =>
    obtain rfl := Option.some.inj h
    cases ok <;> rfl
  case h_4 hphase =>
    obtain rfl := Option.some.inj h
    cases p.active <;> rfl
  case h_6 cmd hphase =>
    obtain rfl := Option.some.inj h
    cases cmd <;> rfl
  case h_8 b hphase =>
    simp only [Option.ite_none_right_eq_some,Option.some.injEq] at h
    obtain ⟨_,rfl⟩ := h
    rfl
  case h_9 hphase =>
    obtain rfl := Option.some.inj h
    cases p.restart <;> rfl
  case h_11 hphase | h_12 hphase | h_13 hphase => simp [settled,hphase] at hp
  case h_14 => simp at h
  all_goals
    obtain rfl := Option.some.inj h
    rfl

def Shows (c : Settings) (es : List Event) (p : Session) : Prop :=
  ∃ as s tr, run System.step (.initial c) as = some (s,tr) ∧ s.Idle ∧
    loopEvents tr ++ p.behind = es ∧ s.session = p.base

theorem Session.settled_base (h : p.settled = true) : p.base = p ∧ p.behind = [] := by
  refine ⟨if_pos h,?_⟩
  unfold behind
  cases hp : p.phase with
  | failed | failedReset | failedClosed => simp [settled,hp] at h
  | _ => rfl

theorem Shows.next {c : Settings} {e : Event} (h : Shows c es p) (hn : p.next e = some q) :
    Shows c (es ++ [e]) q := by
  obtain ⟨as,s,tr,hr,hi,rfl,hs⟩ := h
  cases hset : p.settled with
  | true =>
    obtain ⟨hbase,hbehind⟩ := Session.settled_base hset
    rw [hbase] at hs
    by_cases hf : e = .lircOpen false
    · have hphase : p.phase = .opened := by
        subst hf
        cases hp : p.phase <;> simp [Session.next,hp] at hn ⊢
      obtain ⟨phase,active,restart⟩ := p
      simp only at hphase
      subst hphase hf
      obtain rfl := Option.some.inj hn
      exact ⟨as,s,tr,hr,hi,by simp [Session.behind],hs⟩
    · obtain ⟨bs,t,fs,hr',he,ht⟩ := hi.canShow (run_placed hr) (hs ▸ hn) hf
      have hrun := run_append_iff.mpr ⟨s,tr,fs,hr,hr',rfl⟩
      have hq : t.session = q := by
        have h1 := run_follows hr
        have h2 := run_follows hrun
        rw [loopEvents_append,List.foldlM_append,h1,he,hs] at h2
        simpa [hn,eq_comm] using h2
      obtain ⟨hbase',hbehind'⟩ := Session.settled_base (Session.next_settled hset hn hf)
      refine ⟨as ++ bs,t,tr ++ fs,hrun,ht,?_,hq.trans hbase'.symm⟩
      rw [loopEvents_append,he,hbehind,hbehind',List.append_nil,List.append_nil]
  | false =>
    obtain ⟨phase,active,restart⟩ := p
    cases phase with
    | failed =>
      cases e <;> simp [Session.next] at hn
      subst hn
      exact ⟨as,s,tr,hr,hi,by simp [Session.behind],hs⟩
    | failedReset =>
      cases e <;> simp [Session.next] at hn
      case cecClose b =>
        obtain ⟨rfl,rfl⟩ := hn
        exact ⟨as,s,tr,hr,hi,by simp [Session.behind],hs⟩
    | failedClosed =>
      cases e <;> simp [Session.next] at hn
      subst hn
      have hpc := System.phase_lircOpen (congrArg Session.phase hs)
      have hl : s.loopStep false =
          some ({ s with pc := .returned, disposition := fun _ => .default },
            [.lircOpen false,.signalReset,.cecClose (!s.restart),.returned]) := by
        simp only [System.loopStep,hpc,Bool.false_eq_true,if_false]
      have hrun := run_append_iff.mpr ⟨s,tr,_,hr,run_singleton_iff.mpr (hi.loop hl),rfl⟩
      have hres : s.restart = restart := congrArg Session.restart hs
      have hact : s.main.makeActive = active := congrArg Session.active hs
      refine ⟨_,_,_,hrun,⟨hi.alive,hi.commands⟩,?_,?_⟩
      · simp [Session.behind,hres,loopEvents,List.filter_cons,Event.ofLoop]
      · simp [System.session,System.phase,Session.base,Session.settled,hres,hact]
    | _ => simp [Session.settled] at hset

theorem shows_of_word {c : Settings} {p : Session} (es : List Event)
    (h : es.foldlM Session.next (.initial c) = some p) : Shows c es p := by
  induction es using List.reverseRecOn generalizing p with
  | nil =>
    obtain rfl := Option.some.inj h
    exact ⟨[],_,[],rfl,⟨rfl,rfl⟩,rfl,rfl⟩
  | append_singleton es e ih =>
    rw [List.foldlM_append] at h
    obtain ⟨q,hq,hn⟩ := Option.bind_eq_some_iff.mp h
    simp only [List.foldlM_cons,List.foldlM_nil] at hn
    obtain ⟨p',hp,hp'⟩ := Option.bind_eq_some_iff.mp hn
    obtain rfl := Option.some.inj hp'
    exact (ih hq).next hp

/-- Over any interleaving of callbacks and signals the loop shows a word of the session
protocol, and it can be brought to show every word. -/
theorem loopEvents_iff_word (c : Settings) (es : List Event) :
    (∃ as s tr, run System.step (.initial c) as = some (s,tr) ∧ loopEvents tr = es) ↔
      ∃ p, es.foldlM Session.next (.initial c) = some p ∧ p.settled = true := by
  constructor
  · rintro ⟨as,s,tr,hr,rfl⟩
    exact ⟨s.session,run_follows hr,s.session_settled⟩
  · rintro ⟨p,hp,hset⟩
    obtain ⟨as,s,tr,hr,_,hes,_⟩ := shows_of_word es hp
    rw [(Session.settled_base hset).2,List.append_nil] at hes
    exact ⟨as,s,tr,hr,hes⟩

end Ceclircd
