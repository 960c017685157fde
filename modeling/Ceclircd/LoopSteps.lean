import Ceclircd.MainLoop
set_option autoImplicit false

/-! What one step of the system can do, said once: the statements of the loop by
name, and everything else as a step the loop does not notice. -/

namespace Ceclircd

def activeAfter (b : Bool) : List Command → Bool
  | [] => b
  | .active :: cs => activeAfter true cs
  | .inactive :: cs => activeAfter false cs
  | .standby :: cs | .restart :: cs | .exit :: cs => activeAfter b cs

theorem activeAfter_append (b : Bool) (cs ds : List Command) :
    activeAfter b (cs ++ ds) = activeAfter (activeAfter b cs) ds := by
  induction cs generalizing b with
  | nil => rfl
  | cons c cs ih => cases c <;> simp [activeAfter,ih]

/-- What one pass of the command loop does. Either it empties the queue and the
session goes on, or its last command ended the session and the rest stays queued. -/
structure Drained (m : Main) (restart : Bool) (m' : Main) (restart' : Bool)
    (es : List Event) : Prop where
  queue : m.commands = processed es ++ m'.commands
  silent : pushed es = []
  loopEvents_eq : loopEvents es = (processed es).map .processed
  active : m'.makeActive = activeAfter m.makeActive (processed es)
  address : m'.logicalAddress = m.logicalAddress
  idle : m.running = false → processed es = [] ∧ m'.running = false ∧ restart' = restart
  outcome : m.running = true →
    (m'.running = true ∧ m'.commands = [] ∧ restart' = restart ∧
        ∀ c ∈ processed es, c.endsSession = false) ∨
      (∃ init c, processed es = init ++ [c] ∧ c.endsSession = true ∧ m'.running = false ∧
        restart' = (restart || c == .restart) ∧ ∀ d ∈ init, d.endsSession = false)

theorem Drained.emptied {m m' : Main} {restart restart' : Bool} {es : List Event}
    (hd : Drained m restart m' restart' es) (h : m'.running = true) : m'.commands = [] := by
  cases hr : m.running with
  | false => have hi := (hd.idle hr).2.1; simp [h] at hi
  | true =>
    rcases hd.outcome hr with ⟨_,he,_⟩ | ⟨_,_,_,_,hstop,_⟩
    · exact he
    · simp [h] at hstop

theorem Drained.quiet {m m' : Main} {restart restart' : Bool} {es : List Event} {e : Event}
    (h : Drained m restart m' restart' es) (he : e.ofLoop = true)
    (hne : ∀ c, e ≠ .processed c) : e ∉ es := by
  intro hmem
  have hloop := mem_loopEvents hmem he
  rw [h.loopEvents_eq,List.mem_map] at hloop
  obtain ⟨c,_,hc⟩ := hloop
  exact hne c hc.symm

theorem processed_length_le (tr : List Event) :
    (processed tr).length ≤ (loopEvents tr).length := by
  rw [← processed_loopEvents]
  exact List.length_filterMap_le _ _

/-- A pass processes a command only while running, and after one that ends the
session it does nothing more. -/
theorem Drained.split {m m' : Main} {restart restart' : Bool} {es p post : List Event}
    {c : Command} (hd : Drained m restart m' restart' es) (hes : es = p ++ .processed c :: post) :
    m.running = true ∧ (∀ d ∈ processed p, d.endsSession = false) ∧
      (c.endsSession = true →
        loopEvents post = [] ∧ m'.running = false ∧ restart' = (restart || c == .restart)) := by
  have hproc : processed es = processed p ++ c :: processed post := by
    rw [hes,processed_append,processed_cons]; rfl
  have hrun : m.running = true := by
    cases h : m.running with
    | true => rfl
    | false => have hn := (hd.idle h).1; simp [hproc] at hn
  refine ⟨hrun,?_⟩
  rcases hd.outcome hrun with ⟨_,_,_,hall⟩ | ⟨init,c',hinit,hends,hstop,hrest,hall⟩
  · rw [hproc] at hall
    refine ⟨fun d hd => hall d (by simp [hd]),fun hc => ?_⟩
    have hn := hall c (by simp)
    simp [hc] at hn
  · rw [hinit] at hproc
    rcases RunTrace.append_eq_split hproc with ⟨q,hq,_⟩ | ⟨p',hp,hlast⟩
    · refine ⟨fun d hd => hall d (by simp [hq,hd]),fun hc => ?_⟩
      have hn := hall c (by simp [hq])
      simp [hc] at hn
    · cases p' with
      | cons x p' => simp at hlast
      | nil =>
        simp only [List.nil_append,List.cons.injEq] at hlast
        obtain ⟨rfl,hpost⟩ := hlast
        refine ⟨fun d hd => hall d (by simpa [hp] using hd),fun _ => ⟨?_,hstop,hrest⟩⟩
        have hle := congrArg List.length hd.loopEvents_eq
        rw [hinit,hes,loopEvents_append,loopEvents_cons,loopEvents_processed] at hle
        have hlp := processed_length_le p
        simp only [hp,List.append_nil] at hlp
        simp only [List.length_append,List.length_map,List.length_cons,List.length_nil] at hle
        exact List.eq_nil_of_length_eq_zero (by omega)

namespace Main

/-- One command: it leaves the queue alone, and only the two session-ending ones
touch `running`. -/
structure Dispatched (m : Main) (restart : Bool) (cmd : Command)
    (r : (Main × Bool) × List Event) : Prop where
  commands : r.1.1.commands = m.commands
  silent : pushed r.2 = []
  quiet : loopEvents r.2 = []
  active : r.1.1.makeActive = activeAfter m.makeActive [cmd]
  address : r.1.1.logicalAddress = m.logicalAddress
  running : r.1.1.running = (m.running && !cmd.endsSession)
  restart : r.1.2 = (restart || cmd == .restart)

theorem runCommand_quiet (command : String) :
    pushed (runCommand command) = [] ∧ loopEvents (runCommand command) = [] := by
  unfold runCommand
  split <;> exact ⟨rfl,rfl⟩

theorem onCecKeyPress_silent (m : Main) (key : Keypress) :
    (m.onCecKeyPress key).1.commands = m.commands ∧
      (m.onCecKeyPress key).1.logicalAddress = m.logicalAddress ∧
      pushed (m.onCecKeyPress key).2 = [] := by
  by_cases h : acceptsKey key
  · rw [onCecKeyPress_accepts m h]
    exact ⟨rfl,rfl,(writeLirc_quiet key _ _).1⟩
  · rw [onCecKeyPress_ignores m h]
    exact ⟨rfl,rfl,rfl⟩

theorem dispatch_spec (m : Main) (restart : Bool) (cmd : Command) :
    m.Dispatched restart cmd (m.dispatch restart cmd) := by
  cases cmd with
  | standby =>
    simp only [dispatch]
    split
    · have hq := runCommand_quiet m.onStandbyCommand
      exact ⟨rfl,hq.1,hq.2,rfl,rfl,by simp [Command.endsSession],by simp⟩
    · have hp := onCecKeyPress_passive m ⟨UserControlCode.power,0⟩
      have hs := onCecKeyPress_silent m ⟨UserControlCode.power,0⟩
      exact ⟨hs.1,hs.2.2,hp.quiet,hp.makeActive,hs.2.1,
        by simpa [Command.endsSession,onCecKeyPressCode] using hp.running,by simp⟩
  | active =>
    have hq := runCommand_quiet m.onActivateCommand
    exact ⟨rfl,hq.1,hq.2,rfl,rfl,by simp [dispatch,Command.endsSession],by simp [dispatch]⟩
  | inactive =>
    have hq := runCommand_quiet m.onDeactivateCommand
    exact ⟨rfl,hq.1,hq.2,rfl,rfl,by simp [dispatch,Command.endsSession],by simp [dispatch]⟩
  | restart =>
    exact ⟨rfl,rfl,rfl,rfl,rfl,by simp [dispatch,Command.endsSession],by simp [dispatch]⟩
  | exit => exact ⟨rfl,rfl,rfl,rfl,rfl,by simp [dispatch,Command.endsSession],by simp [dispatch]⟩

theorem drain_stopped (cmds : List Command) (m : Main) (restart : Bool)
    (h : m.running = false) : drain cmds m restart = ((m,restart),[]) := by
  cases cmds with
  | nil => rfl
  | cons cmd rest => simp [drain,h]

theorem drain_spec (cmds : List Command) (m : Main) (restart : Bool) (hc : m.commands = cmds) :
    Drained m restart (drain cmds m restart).1.1 (drain cmds m restart).1.2
      (drain cmds m restart).2 := by
  induction cmds generalizing m restart with
  | nil => exact ⟨by simp [drain],rfl,rfl,rfl,rfl,fun h => ⟨rfl,h,rfl⟩,
      fun h => .inl ⟨h,hc,rfl,by simp [drain]⟩⟩
  | cons cmd rest ih =>
    cases hrun : m.running with
    | false =>
      rw [drain_stopped _ m restart hrun]
      exact ⟨rfl,rfl,rfl,rfl,rfl,fun _ => ⟨rfl,hrun,rfl⟩,fun h => by simp [hrun] at h⟩
    | true =>
      have hd := dispatch_spec m restart cmd
      generalize hdisp : m.dispatch restart cmd = d at hd
      obtain ⟨⟨m₁,r₁⟩,es⟩ := d
      have hrec := ih { m₁ with commands := rest } r₁ rfl
      generalize htail : drain rest { m₁ with commands := rest } r₁ = e at hrec
      obtain ⟨⟨m₂,r₂⟩,fs⟩ := e
      have heq : drain (cmd :: rest) m restart = ((m₂,r₂),.processed cmd :: es ++ fs) := by
        simp [drain,hrun,hdisp,htail]
      rw [heq]
      obtain ⟨_,hsil,hquiet,hact,haddr,hr,hrs⟩ := hd
      simp only [hrun,Bool.true_and] at hr
      dsimp only at hsil hquiet hact haddr hr hrs hrec ⊢
      have hpe : processed es = [] := by rw [← processed_loopEvents,hquiet]; rfl
      have hproc : processed (.processed cmd :: es ++ fs) = cmd :: processed fs := by
        rw [List.cons_append,processed_cons,processed_append,hpe]; rfl
      obtain ⟨hq,hsil',hle,hact',haddr',hidle,hout⟩ := hrec
      refine ⟨?_,?_,?_,?_,haddr'.trans haddr,fun h => by simp [hrun] at h,fun _ => ?_⟩
      · rw [hc,hproc,List.cons_append]
        exact congrArg (cmd :: ·) hq
      · rw [List.cons_append,pushed_cons,pushed_append,hsil,hsil']; rfl
      · rw [hproc,List.cons_append,loopEvents_cons,loopEvents_append,hquiet,hle]; rfl
      · rw [hproc,hact',← List.singleton_append,activeAfter_append]
        exact congrArg (activeAfter · (processed fs)) hact
      · rw [hproc]
        cases hends : cmd.endsSession with
        | true =>
          -- the session is over: nothing further is taken from the queue
          obtain ⟨hnil,hrun',hrest⟩ := hidle (by simpa [hends] using hr)
          exact .inr ⟨[],cmd,by simp [hnil],hends,hrun',by rw [hrest,hrs],by simp⟩
        | false =>
          have hsame : r₁ = restart := by
            rw [hrs]; cases cmd <;> simp_all [Command.endsSession]
          subst hsame
          rcases hout (by simpa [hends] using hr) with ⟨h1,h2,h3,h4⟩ | ⟨init,c,h1,h2,h3,h4,h5⟩
          · exact .inl ⟨h1,h2,h3,by simpa [hends] using h4⟩
          · exact .inr ⟨cmd :: init,c,by simp [h1],h2,h3,h4,by simpa [hends] using h5⟩

theorem commandPass_spec (m : Main) (restart : Bool) :
    Drained m restart (m.commandPass restart).1.1 (m.commandPass restart).1.2
      (m.commandPass restart).2 := drain_spec m.commands m restart rfl

end Main

inductive LoopMove (s : System) : System → List Event → Prop where
  | opened (h : s.pc = .cecOpen) : LoopMove s { s with pc := .lircOpen } [.cecOpen true]
  | openThrew (h : s.pc = .cecOpen) : LoopMove s { s with pc := .threw } [.cecOpen false]
  | lircOpened (h : s.pc = .lircOpen) : LoopMove s { s with pc := .setRunning } [.lircOpen true]
  | lircFailed (h : s.pc = .lircOpen) :
      LoopMove s { s with pc := .returned, disposition := fun _ => .default }
        [.lircOpen false,.signalReset,.cecClose (!s.restart),.returned]
  | started (h : s.pc = .setRunning) :
      LoopMove s { s with main := { s.main with running := true }, pc := .sigaction } [.setRunning]
  | installed (h : s.pc = .sigaction) :
      LoopMove s { s with pc := .makeActive, disposition := fun _ => .signalHandler } [.sigaction]
  | activated (h : s.pc = .makeActive) (ha : s.main.makeActive = true) :
      LoopMove s { s with pc := .pass } [.makeActive true]
  | activateThrew (h : s.pc = .makeActive) (ha : s.main.makeActive = true) :
      LoopMove s { s with pc := .threw } [.makeActive false]
  | notActivated (h : s.pc = .makeActive) (ha : s.main.makeActive = false) :
      LoopMove s { s with pc := .pass } []
  | passed (h : s.pc = .pass) (m : Main) (restart : Bool) (es : List Event)
      (hd : Drained s.main s.restart m restart es) :
      LoopMove s { s with main := m, restart := restart, pc := .wait } es
  | again (h : s.pc = .wait) (hr : s.main.running = true) : LoopMove s { s with pc := .pass } []
  | left (h : s.pc = .wait) (hr : s.main.running = false) :
      LoopMove s { s with pc := .signalReset } []
  | signalsReset (h : s.pc = .signalReset) :
      LoopMove s { s with pc := .cecClose, disposition := fun _ => .default } [.signalReset]
  | cecClosed (h : s.pc = .cecClose) :
      LoopMove s { s with pc := .lircClose } [.cecClose (!s.restart)]
  | lircClosed (h : s.pc = .lircClose) : LoopMove s { s with pc := .whileRestart } [.lircClose]
  | reopened (h : s.pc = .whileRestart) (hr : s.restart = true) :
      LoopMove s { s with pc := .cecOpen } []
  | returned (h : s.pc = .whileRestart) (hr : s.restart = false) :
      LoopMove s { s with pc := .returned } [.returned]

theorem LoopMove.processed_mem {s t : System} {es : List Event} {c : Command}
    (h : LoopMove s t es) (hc : .processed c ∈ es) :
    s.pc = .pass ∧ t.pc = .wait ∧ Drained s.main s.restart t.main t.restart es := by
  cases h with
  | passed hp m restart es hd => exact ⟨hp,rfl,hd⟩
  | _ => simp at hc

namespace System

theorem loopStep_move {s t : System} {ok : Bool} {es : List Event}
    (h : s.loopStep ok = some (t,es)) : LoopMove s t es := by
  unfold loopStep at h
  split at h
  case h_1 hp =>
    cases ok <;> simp only [Option.some.injEq,Prod.mk.injEq] at h <;> obtain ⟨rfl,rfl⟩ := h
    · exact .openThrew hp
    · exact .opened hp
  case h_2 hp =>
    cases ok <;> simp only [Bool.false_eq_true,if_false,if_true,Option.some.injEq,
      Prod.mk.injEq] at h <;> obtain ⟨rfl,rfl⟩ := h
    · exact .lircFailed hp
    · exact .lircOpened hp
  case h_3 hp =>
    simp only [Option.some.injEq,Prod.mk.injEq] at h
    obtain ⟨rfl,rfl⟩ := h
    exact .started hp
  case h_4 hp =>
    simp only [Option.some.injEq,Prod.mk.injEq] at h
    obtain ⟨rfl,rfl⟩ := h
    exact .installed hp
  case h_5 hp =>
    cases ha : s.main.makeActive <;> cases ok <;> simp only [ha,Bool.false_eq_true,if_false,
      if_true,Option.some.injEq,Prod.mk.injEq] at h <;> obtain ⟨rfl,rfl⟩ := h
    · exact .notActivated hp ha
    · exact .notActivated hp ha
    · exact .activateThrew hp ha
    · exact .activated hp ha
  case h_6 hp =>
    simp only [Option.some.injEq,Prod.mk.injEq] at h
    obtain ⟨rfl,rfl⟩ := h
    exact .passed hp _ _ _ (s.main.commandPass_spec s.restart)
  case h_7 hp =>
    cases hr : s.main.running <;> simp only [hr,Bool.false_eq_true,if_false,if_true,
      Option.some.injEq,Prod.mk.injEq] at h <;> obtain ⟨rfl,rfl⟩ := h
    · exact .left hp hr
    · exact .again hp hr
  case h_8 hp =>
    simp only [Option.some.injEq,Prod.mk.injEq] at h
    obtain ⟨rfl,rfl⟩ := h
    exact .signalsReset hp
  case h_9 hp =>
    simp only [Option.some.injEq,Prod.mk.injEq] at h
    obtain ⟨rfl,rfl⟩ := h
    exact .cecClosed hp
  case h_10 hp =>
    simp only [Option.some.injEq,Prod.mk.injEq] at h
    obtain ⟨rfl,rfl⟩ := h
    exact .lircClosed hp
  case h_11 hp =>
    by_cases hr : s.restart = true
    · rw [if_pos hr] at h
      simp only [Option.some.injEq,Prod.mk.injEq] at h
      obtain ⟨rfl,rfl⟩ := h
      exact .reopened hp hr
    · rw [if_neg hr] at h
      simp only [Option.some.injEq,Prod.mk.injEq] at h
      obtain ⟨rfl,rfl⟩ := h
      exact .returned hp (by simpa using hr)
  case h_12 => simp at h
  case h_13 => simp at h

/-- A step of anyone but the loop: the loop's own state is untouched. -/
structure Aside (s t : System) (es : List Event) : Prop where
  main : s.main.Passive (t.main,es)
  restart : t.restart = s.restart
  pc : t.pc = s.pc

theorem deliver_aside (s : System) (sigNum : Signal) :
    s.Aside (s.deliver sigNum).1 (s.deliver sigNum).2 := by
  unfold deliver
  split
  · exact ⟨s.main.passive_self,rfl,rfl⟩
  · exact ⟨s.main.signalHandler_passive sigNum,rfl,rfl⟩

theorem step_cases {s t : System} {a : Action} {es : List Event}
    (h : s.step a = some (t,es)) :
    s.killed = false ∧
      ((∃ ok, a = .loop ok ∧ s.loopStep ok = some (t,es)) ∨
        (∃ c, a = .callback c ∧ t = { s with main := (s.main.callback c).1 } ∧
          es = (s.main.callback c).2) ∨
        (∃ sigNum, a = .signal sigNum ∧ (t,es) = s.deliver sigNum)) := by
  unfold step at h
  cases hk : s.killed with
  | true => simp [hk] at h
  | false =>
    simp only [hk,Bool.false_eq_true,if_false] at h
    refine ⟨rfl,?_⟩
    cases a with
    | loop ok => exact .inl ⟨ok,rfl,h⟩
    | callback c =>
      simp only [Option.some.injEq,Prod.mk.injEq] at h
      exact .inr (.inl ⟨c,rfl,h.1.symm,h.2.symm⟩)
    | signal sigNum =>
      simp only [Option.some.injEq] at h
      exact .inr (.inr ⟨sigNum,rfl,h.symm⟩)

theorem step_loop {s t : System} {ok : Bool} {es : List Event}
    (h : s.step (.loop ok) = some (t,es)) : LoopMove s t es := by
  rcases (step_cases h).2 with ⟨_,ha,hl⟩ | ⟨_,ha,_⟩ | ⟨_,ha,_⟩
  · exact loopStep_move hl
  · simp at ha
  · simp at ha

theorem step_aside {s t : System} {a : Action} {es : List Event}
    (h : s.step a = some (t,es)) (hl : ∀ ok, a ≠ .loop ok) : s.Aside t es := by
  rcases (step_cases h).2 with ⟨ok,ha,_⟩ | ⟨c,_,rfl,rfl⟩ | ⟨n,_,hd⟩
  · exact absurd ha (hl ok)
  · exact ⟨s.main.callback_passive c,rfl,rfl⟩
  · have ha := s.deliver_aside n
    rw [← hd] at ha
    exact ha

/-- The dichotomy every invariant of the loop is proved by. -/
theorem step_move_or_aside {s t : System} {a : Action} {es : List Event}
    (h : s.step a = some (t,es)) : LoopMove s t es ∨ s.Aside t es := by
  cases a with
  | loop ok => exact .inl (step_loop h)
  | callback c => exact .inr (step_aside h (by simp))
  | signal sigNum => exact .inr (step_aside h (by simp))

theorem Aside.quiet {s t : System} {es : List Event} {e : Event} (h : s.Aside t es)
    (he : e.ofLoop = true) : e ∉ es := by
  intro hmem
  have hloop := mem_loopEvents hmem he
  rw [h.main.quiet] at hloop
  simp at hloop

theorem Aside.processed_nil {s t : System} {es : List Event} (h : s.Aside t es) :
    processed es = [] := by
  rw [← processed_loopEvents,h.main.quiet]
  rfl

theorem step_processed {s t : System} {a : Action} {es p post : List Event} {c : Command}
    (h : s.step a = some (t,es)) (hes : es = p ++ .processed c :: post) :
    t.pc = .wait ∧ Drained s.main s.restart t.main t.restart es := by
  rcases step_move_or_aside h with hm | ha
  · exact (hm.processed_mem (c := c) (by simp [hes])).2
  · have hn := ha.processed_nil
    rw [hes,processed_append,processed_cons] at hn
    simp at hn

end System

end Ceclircd
