import Ceclircd.CommandQueue
import Ceclircd.Monitor
set_option autoImplicit false

/-! `libcec_sync` and `libcec_cond` statement by statement: `Main::push` on any thread
against the command loop, which `System` takes as whole sections. -/

namespace Ceclircd
open RunTrace Monitor

/-- One turn of `while( running && !commands.empty() )`. -/
def System.turn (s : System) : Option (System × List Event) :=
  match s.main.commands with
  | [] => none
  | cmd :: rest =>
    if s.main.running then
      let ((m,restart),es) := s.main.dispatch s.restart cmd
      some ({ s with main := { m with commands := rest }, restart := restart },
        .processed cmd :: es)
    else none

/-- `Main::push` and `Main::loop`; the argument of `outside` is that of `System.loopStep`. -/
def commandProgram : Program System Command Bool Event where
  accepts s := s.main.running
  push s cmd := ({ s with main := (s.main.push cmd).1 },(s.main.push cmd).2)
  turn := System.turn
  finish s := { s with pc := .wait }
  enters s := s.pc == .pass
  outside := System.loopStep

/-- The pass as `System.loopStep` takes it. -/
def System.wholePass (s : System) : System × List Event :=
  let ((m,restart),es) := s.main.commandPass s.restart
  ({ s with main := m, restart := restart, pc := .wait },es)

namespace System

theorem turn_eq_none_iff (s : System) :
    s.turn = none ↔ s.main.running = false ∨ s.main.commands = [] := by
  unfold turn
  cases hc : s.main.commands with
  | nil => simp
  | cons cmd rest => cases hr : s.main.running <;> simp

theorem turn_eq_some {s t : System} {es : List Event} (h : s.turn = some (t,es)) :
    ∃ cmd rest m restart ds, s.main.commands = cmd :: rest ∧ s.main.running = true ∧
      s.main.dispatch s.restart cmd = ((m,restart),ds) ∧
      t = { s with main := { m with commands := rest }, restart := restart } ∧
      es = .processed cmd :: ds := by
  unfold turn at h
  cases hc : s.main.commands with
  | nil => simp [hc] at h
  | cons cmd rest =>
    cases hr : s.main.running with
    | false => simp [hc,hr] at h
    | true =>
      rcases hd : s.main.dispatch s.restart cmd with ⟨⟨m,restart⟩,ds⟩
      simp only [hc,hr,hd,if_true,Option.some.injEq,Prod.mk.injEq] at h
      exact ⟨cmd,rest,m,restart,ds,rfl,rfl,hd,h.1.symm,h.2.symm⟩

theorem turns_drain {s t : System} {es : List Event} (h : Turns commandProgram s t es) :
    s.main.commandPass s.restart =
        ((t.main.commandPass t.restart).1,es ++ (t.main.commandPass t.restart).2) ∧
      t = { s with main := t.main, restart := t.restart } := by
  induction h with
  | nil s => exact ⟨rfl,rfl⟩
  | cons hturn _ ih =>
    obtain ⟨cmd,rest,m,restart,ds,hc,hr,hd,rfl,rfl⟩ := turn_eq_some hturn
    obtain ⟨hrest,hsame⟩ := ih
    have hrest : Main.drain rest { m with commands := rest } restart = _ := hrest
    refine ⟨?_,hsame⟩
    rw [Main.commandPass,hc,Main.drain,if_pos hr,hd]
    simp only [hrest,List.append_assoc]

theorem drain_of_turn_none {s : System} (h : s.turn = none) :
    s.main.commandPass s.restart = ((s.main,s.restart),[]) := by
  rcases (turn_eq_none_iff s).mp h with hr | hc
  · exact Main.drain_stopped _ s.main s.restart hr
  · rw [Main.commandPass,hc]
    rfl

theorem loopStep_killed {s t : System} {ok : Bool} {es : List Event}
    (h : s.loopStep ok = some (t,es)) : t.killed = s.killed := by
  cases loopStep_move h with
  | _ => rfl

end System

theorem push_refused {m : Main} (h : m.running = false) (cmd : Command) : (m.push cmd).1 = m := by
  rw [Main.push,h]
  rfl

theorem commandProgram_lawful : Lawful commandProgram System.wholePass where
  refused s cmd h := by
    show { s with main := (s.main.push cmd).1 } = s
    rw [push_refused h]
  accepted s cmd := (s.main.push_passive cmd).running
  finished s h := (System.turn_eq_none_iff _).mpr ((System.turn_eq_none_iff s).mp h)
  pass_eq s t es h hturn := by
    obtain ⟨hpass,hsame⟩ := System.turns_drain h
    rw [System.drain_of_turn_none hturn,List.append_nil] at hpass
    rw [System.wholePass,hpass]
    refine Prod.ext ?_ rfl
    show { s with main := t.main, restart := t.restart, pc := .wait } = { t with pc := .wait }
    rw [hsame]

theorem turns_queue {s t : System} {es : List Event} (h : Turns commandProgram s t es) :
    pushed es = [] ∧ s.main.commands = processed es ++ t.main.commands := by
  obtain ⟨hpass,_⟩ := System.turns_drain h
  have hs := s.main.commandPass_spec s.restart
  have ht := t.main.commandPass_spec t.restart
  rw [hpass] at hs
  have hsilent := hs.silent
  have hqueue := hs.queue
  rw [pushed_append,List.append_eq_nil_iff] at hsilent
  rw [processed_append,List.append_assoc,← ht.queue] at hqueue
  exact ⟨hsilent.1,hqueue⟩

theorem statement_pushed {T : Type} [DecidableEq T] {s t : State System Command T}
    {a : Monitor.Action Command Bool T} {es : List Event}
    (h : s.step commandProgram a = some (t,es)) :
    pushed es = (s.pushCalls a).map (·,s.shared.main.running) := by
  cases step_move h with
  | push n k hn =>
    simp only [State.pushCalls,hn]
    exact s.shared.main.push_pushed k
  | enter n k hn | signal n hn | leave n hn =>
    simp only [State.pushCalls,hn]
    rfl
  | turn hp shared es hturn =>
    have hnone := (turns_queue (.cons hturn (.nil shared))).1
    rwa [List.append_nil] at hnone
  | outside a hp he shared es hout => exact (System.loopStep_move hout).pushed_nil
  | call | lock | wait | relock | unlock | wake => rfl

theorem turn_ends {s t : System} {es : List Event} {cmd : Command} (h : s.turn = some (t,es))
    (hmem : .processed cmd ∈ es) (hends : cmd.endsSession = true) :
    t.main.running = false := by
  obtain ⟨c,rest,m,restart,ds,_,_,hdisp,rfl,rfl⟩ := System.turn_eq_some h
  have hd := s.main.dispatch_spec s.restart c
  rw [hdisp] at hd
  have hcmd : cmd = c := by
    rcases List.mem_cons.mp hmem with heq | hin
    · exact Event.processed.inj heq
    · have hloop := mem_loopEvents hin rfl
      simp [hd.quiet] at hloop
  have hrun : m.running = (s.main.running && !c.endsSession) := hd.running
  simp [hrun,← hcmd,hends]

/-! The sections as steps of `System`. -/

theorem exists_pushing (m : Main) (cmd : Command) : ∃ cb, m.callback cb = m.push cmd := by
  cases cmd with
  | standby => exact ⟨.command ⟨.standby,[]⟩,rfl⟩
  | active => exact ⟨.sourceActivated m.logicalAddress true,if_pos rfl⟩
  | inactive => exact ⟨.sourceActivated m.logicalAddress false,if_pos rfl⟩
  | restart => exact ⟨.restart,rfl⟩
  | exit => exact ⟨.stop,rfl⟩

theorem atomicStep_step {s t : System} {b : AtomicAction Command Bool} {es : List Event}
    (h : atomicStep commandProgram System.wholePass s b = some (t,es)) (hk : s.killed = false) :
    ∃ a, s.step a = some (t,es) ∧ t.killed = false := by
  cases b with
  | push cmd =>
    obtain ⟨cb,hcb⟩ := exists_pushing s.main cmd
    obtain ⟨rfl,rfl⟩ := Prod.mk.inj (Option.some.inj h)
    refine ⟨.callback cb,?_,hk⟩
    simp only [System.step,hk,Bool.false_eq_true,if_false,hcb]
  | pass =>
    simp only [atomicStep] at h
    split at h
    · next hp =>
      have hp : s.pc = .pass := by simpa [commandProgram] using hp
      have hs : s.loopStep true = some (t,es) := by
        rw [System.loopStep,hp]
        exact h
      refine ⟨.loop true,?_,(System.loopStep_killed hs).trans hk⟩
      simp [System.step,hk,hs]
    · simp at h
  | outside ok =>
    simp only [atomicStep] at h
    split at h
    · simp at h
    · have hs : s.loopStep ok = some (t,es) := h
      refine ⟨.loop ok,?_,(System.loopStep_killed hs).trans hk⟩
      simp [System.step,hk,hs]

theorem atomic_run {s t : System} {bs : List (AtomicAction Command Bool)} {tr : List Event}
    (hr : run (atomicStep commandProgram System.wholePass) s bs = some (t,tr))
    (hk : s.killed = false) : ∃ as, run System.step s as = some (t,tr) := by
  induction bs generalizing s tr with
  | nil =>
    obtain ⟨rfl,rfl⟩ := Prod.mk.inj (Option.some.inj hr)
    exact ⟨[],rfl⟩
  | cons b bs ih =>
    obtain ⟨u,es,fs,hb,hrest,rfl⟩ := run_cons_iff.mp hr
    obtain ⟨a,ha,hku⟩ := atomicStep_step hb hk
    obtain ⟨as,has⟩ := ih hrest hku
    exact ⟨a :: as,run_cons_iff.mpr ⟨u,es,fs,ha,has,rfl⟩⟩

def pushedOnce (cmd : Command) : List (Monitor.Action Command Bool Nat) :=
  List.replicate 5 (.outside true) ++ .call 0 cmd :: List.replicate 4 (.producer 0)

section Runs

variable {T : Type} [DecidableEq T] {c : Settings} {as : List (Monitor.Action Command Bool T)}
  {f : State System Command T} {tr : List Event}

/-- Statement by statement, with any number of threads that push, the daemon does only what
it does with each section as one step; a pass that is still going on has reported a beginning
of what it will. -/
theorem statements_refine
    (hr : run (State.step commandProgram) (initial (.initial c)) as = some (f,tr)) :
    ∃ bs s done es, run System.step (.initial c) bs = some (s,done) ∧ tr = done ++ es ∧
      (f.phase ≠ .draining → s = f.shared ∧ es = []) ∧
      (f.phase = .draining → s.pc = .pass ∧ s.main.commandPass s.restart =
        ((f.shared.main.commandPass f.shared.restart).1,
          es ++ (f.shared.main.commandPass f.shared.restart).2)) := by
  obtain @⟨bs,s,done,es,hrun,htr,hturns,henters,hsame⟩ :=
    (run_follows commandProgram_lawful hr).2
  obtain ⟨as',has'⟩ := atomic_run hrun rfl
  refine ⟨as',s,done,es,has',htr,hsame,fun hp => ⟨?_,(System.turns_drain hturns).1⟩⟩
  simpa [commandProgram] using henters hp

theorem statements_refine_mid_pass :
    ∃ f tr, run (State.step commandProgram) (initial (.initial .none))
        (pushedOnce .inactive ++ [.call 1 .exit,.consumer,.consumer]) = some (f,tr) ∧
      f.phase = .draining ∧ ∃ bs s done es, run System.step (.initial .none) bs =
        some (s,done) ∧ tr = done ++ es ∧ s.pc = .pass := by
  have h : (run (State.step commandProgram) (initial (.initial .none))
      (pushedOnce .inactive ++ [.call 1 .exit,.consumer,.consumer])).map (fun r => r.1.phase) =
        some .draining := by decide
  obtain ⟨⟨f,tr⟩,hr,hp⟩ := Option.map_eq_some_iff.mp h
  obtain ⟨bs,s,done,es,hrun,htr,-,hdrain⟩ := statements_refine hr
  exact ⟨f,tr,hr,hp,bs,s,done,es,hrun,htr,(hdrain hp).1⟩

theorem statements_queue
    (hr : run (State.step commandProgram) (initial (.initial c)) as = some (f,tr)) :
    accepted tr = processed tr ++ f.shared.main.commands := by
  obtain @⟨bs,s,done,es,hrun,rfl,hturns,_⟩ := (run_follows commandProgram_lawful hr).2
  obtain ⟨as',has'⟩ := atomic_run hrun rfl
  have hdone := run_queue has'
  have hes : pushed es = [] ∧ s.main.commands = processed es ++ f.shared.main.commands :=
    turns_queue hturns
  rw [accepted_append,processed_append,accepted_of_pushed_nil hes.1,List.append_nil,hdone,hes.2,
    List.append_assoc]

theorem statements_pushed_running
    (hr : run (State.step commandProgram) (initial (.initial c)) as = some (f,tr))
    {pre post : List Event} {e : Event} {cmd : Command} {ok : Bool}
    (hsplit : tr = pre ++ e :: post) (he : e.push? = some (cmd,ok)) : runningAfter pre = ok := by
  obtain @⟨bs,s,done,es,hrun,htr,hturns,_⟩ := (run_follows commandProgram_lawful hr).2
  obtain ⟨as',has'⟩ := atomic_run hrun rfl
  rcases append_eq_split (htr.symm.trans hsplit) with ⟨q,hdone,_⟩ | ⟨p,_,hes⟩
  · exact run_pushed_running has' hdone he
  · have hmem : (cmd,ok) ∈ pushed es := List.mem_filterMap.mpr ⟨e,by simp [hes],he⟩
    simp [(turns_queue hturns).1] at hmem

/-- Between any two statements, in the middle of a pass as well: each push was answered, and
accepted exactly if a session was running; nothing accepted is lost, duplicated or reordered. -/
theorem statements_keep_queue
    (hr : run (State.step commandProgram) (initial (.initial c)) as = some (f,tr)) :
    pushed tr = observed (State.step commandProgram)
        (fun s a => (s.pushCalls a).map (·,s.shared.main.running)) (initial (.initial c)) as ∧
      (∀ pre cmd post, tr = pre ++ .accepted cmd :: post → runningAfter pre = true) ∧
      (∀ pre cmd post, tr = pre ++ .refused cmd :: post → runningAfter pre = false) ∧
      accepted tr = processed tr ++ f.shared.main.commands :=
  ⟨filterMap_eq_observed (fun _ _ _ _ hs => statement_pushed hs) hr,
    fun _ _ _ hsplit => statements_pushed_running hr hsplit rfl,
    fun _ _ _ hsplit => statements_pushed_running hr hsplit rfl,statements_queue hr⟩

theorem statements_keep_queue_mid_pass :
    ∃ f tr, run (State.step commandProgram) (initial (.initial .none))
        (pushedOnce .inactive ++ [.call 1 .exit,.consumer,.consumer]) = some (f,tr) ∧
      f.phase = .draining ∧ pushed tr = [(.inactive,true)] ∧
      accepted tr = processed tr ++ f.shared.main.commands := by
  have h : (run (State.step commandProgram) (initial (.initial .none))
      (pushedOnce .inactive ++ [.call 1 .exit,.consumer,.consumer])).map (fun r => r.1.phase) =
        some .draining := by decide
  obtain ⟨⟨f,tr⟩,hr,hp⟩ := Option.map_eq_some_iff.mp h
  obtain ⟨hpushed,_,_,hqueue⟩ := statements_keep_queue hr
  have hcalls : observed (State.step commandProgram)
      (fun s a => (s.pushCalls a).map (·,s.shared.main.running)) (initial (.initial .none))
      (pushedOnce .inactive ++ [.call 1 .exit,.consumer,.consumer]) = [(.inactive,true)] := by
    decide
  exact ⟨f,tr,hr,hp,hpushed.trans hcalls,hqueue⟩

/-- While the loop waits and `libcec_sync` is free, no accepted command is left to process:
every `pthread_cond_signal` that mattered has reached it. -/
theorem blocked_nothing_accepted
    (hr : run (State.step commandProgram) (initial (.initial c)) as = some (f,tr))
    (hp : f.phase = .blocked) (ho : f.owner = none) (hrun : f.shared.main.running = true) :
    f.shared.main.commands = [] ∧ accepted tr = processed tr := by
  have hnone := (run_watched commandProgram_lawful hr).nothing_to_do hp ho
  have hempty : f.shared.main.commands = [] := by
    rcases (System.turn_eq_none_iff _).mp hnone with h | h
    · simp [hrun] at h
    · exact h
  have hq := statements_queue hr
  rw [hempty,List.append_nil] at hq
  exact ⟨hempty,hq⟩

theorem blocked_nothing_accepted_active :
    ∃ f tr, run (State.step commandProgram) (initial (.initial .none))
        (pushedOnce .active ++ [.consumer,.consumer,.consumer]) = some (f,tr) ∧
      f.shared.main.commands = [] ∧ accepted tr = processed tr := by
  have h : (run (State.step commandProgram) (initial (.initial .none))
      (pushedOnce .active ++ [.consumer,.consumer,.consumer])).map
        (fun r => (r.1.phase,r.1.owner,r.1.shared.main.running)) =
          some (.blocked,none,true) := by decide
  obtain ⟨⟨f,tr⟩,hr,heq⟩ := Option.map_eq_some_iff.mp h
  simp only [Prod.mk.injEq] at heq
  exact ⟨f,tr,hr,blocked_nothing_accepted hr heq.1 heq.2.1 heq.2.2⟩

/-- After the command that ends a session the loop still enters its timed wait; from there,
whatever is pushed, only the timeout gets it out: `push` refuses and does not signal. -/
theorem ended_wait_timeout
    (hr : run (State.step commandProgram) (initial (.initial c)) as = some (f,tr)) :
    (∀ a g es cmd, f.step commandProgram a = some (g,es) → .processed cmd ∈ es →
      cmd.endsSession = true → g.phase = .draining ∧ g.shared.main.running = false) ∧
    (f.phase = .draining → f.shared.main.running = false →
      (∃ g, f.step commandProgram .consumer = some (g,[]) ∧ g.phase = .blocked ∧
        g.shared.main = f.shared.main) ∧
      ∀ a g es, a ≠ .consumer → f.step commandProgram a = some (g,es) →
        g.phase = .draining ∧ g.shared = f.shared ∧ es = []) ∧
    (f.phase = .blocked → f.shared.main.running = false → ∀ bs g es, (∀ b ∈ bs, b ≠ .wake) →
      run (State.step commandProgram) f bs = some (g,es) →
        g.phase = .blocked ∧ g.shared = f.shared ∧ (∀ n, g.producers n ≠ .signalling) ∧
          ∀ e ∈ es, ∃ cmd, e = .refused cmd) := by
  have hw := run_watched commandProgram_lawful hr
  refine ⟨?_,fun hp hrun => ⟨?_,?_⟩,?_⟩
  · intro a g es cmd hs hmem hends
    cases step_move hs with
    | turn hp shared es hturn => exact ⟨hp,turn_ends hturn hmem hends⟩
    | push n k hn =>
      have hloop : .processed cmd ∈ loopEvents (f.shared.main.push k).2 :=
        mem_loopEvents hmem rfl
      simp [(f.shared.main.push_passive k).quiet] at hloop
    | outside ok hp he shared es hout =>
      have hpass := ((System.loopStep_move hout).processed_mem hmem).1
      simp [commandProgram,hpass] at he
    | call | enter | signal | leave | lock | wait | relock | unlock | wake => simp at hmem
  · have hturn : f.shared.turn = none := (System.turn_eq_none_iff _).mpr (.inl hrun)
    refine ⟨{ f with shared := { f.shared with pc := .wait }, owner := none, phase := .blocked },
      ?_,rfl,rfl⟩
    show f.consumerStep commandProgram = _
    simp only [State.consumerStep,hp]
    rw [show commandProgram.turn f.shared = none from hturn]
    rfl
  · intro a g es ha hs
    exact hw.exclusive.others_wait hp ha (step_move hs)
  · intro hp hrun bs g es hbs hg
    obtain ⟨hblocked,hshared,hsignal,hes⟩ :=
      hw.stays_blocked commandProgram_lawful hp hrun hbs hg
    refine ⟨hblocked,hshared,hsignal,fun e he => ?_⟩
    obtain ⟨cmd,hcmd⟩ := hes e he
    refine ⟨cmd,?_⟩
    simpa [commandProgram,Main.push,hrun] using hcmd

theorem ended_wait_timeout_exit :
    ∃ f tr g es h k fs, run (State.step commandProgram) (initial (.initial .none))
        (pushedOnce .exit ++ [.consumer]) = some (f,tr) ∧
      f.step commandProgram .consumer = some (g,es) ∧ .processed .exit ∈ es ∧
      g.step commandProgram .consumer = some (h,[]) ∧ h.phase = .blocked ∧
      run (State.step commandProgram) h [.call 1 .restart,.producer 1,.producer 1,.producer 1] =
        some (k,fs) ∧ k.phase = .blocked ∧ k.shared = h.shared ∧
      ∀ e ∈ fs, ∃ cmd, e = .refused cmd := by
  have hall : (run (State.step commandProgram) (initial (.initial .none))
      (pushedOnce .exit ++ [.consumer] ++ [.consumer] ++ [.consumer] ++
        [.call 1 .restart,.producer 1,.producer 1,.producer 1])).isSome = true := by decide
  have hexit : (run (State.step commandProgram) (initial (.initial .none))
      (pushedOnce .exit ++ [.consumer])).bind (fun r => (r.1.step commandProgram .consumer).map
        (·.2)) = some [.processed .exit] := by decide
  obtain ⟨⟨k,_⟩,hall⟩ := Option.isSome_iff_exists.mp hall
  obtain ⟨h,_,fs,hh,hk,-⟩ := run_append_iff.mp hall
  obtain ⟨g,_,_,hg,hwait,-⟩ := run_append_iff.mp hh
  obtain ⟨f,tr,es,hf,hturn,-⟩ := run_append_iff.mp hg
  have hturn := run_singleton_iff.mp hturn
  have hes : .processed .exit ∈ es := by
    rw [hf,Option.bind_some,hturn] at hexit
    simp only [Option.map_some,Option.some.injEq] at hexit
    simp [hexit]
  obtain ⟨hdraining,hstopped⟩ := (ended_wait_timeout hf).1 .consumer g es .exit hturn hes rfl
  obtain ⟨⟨h',hstep,hblocked,hmain⟩,-⟩ := (ended_wait_timeout hg).2.1 hdraining hstopped
  obtain rfl : h' = h := by
    have heq := hstep.symm.trans (run_singleton_iff.mp hwait)
    exact congrArg Prod.fst (Option.some.inj heq)
  have hrun : h'.shared.main.running = false := hmain ▸ hstopped
  obtain ⟨hstill,hsame,-,hrefused⟩ := (ended_wait_timeout hh).2.2 hblocked hrun _ k fs (by simp) hk
  exact ⟨f,tr,g,es,h',k,fs,hf,hturn,hes,hstep,hblocked,hk,hstill,hsame,hrefused⟩

end Runs

end Ceclircd
