import Ceclircd.LoopSteps
set_option autoImplicit false

/-! What follows the command that ended a session. The loop's local `restart` is
set by the first RESTART of the run and never cleared, and that decides it. -/

namespace Ceclircd
open RunTrace

def closing (reopen : Bool) : List Event := [.signalReset,.cecClose (!reopen),.lircClose]

/-- What the loop may have done since the command that ended a session. -/
def Follows : Command → List Event → Prop
  | .restart, es => es <+: closing true ∨ ∃ ok rest, es = closing true ++ .cecOpen ok :: rest
  | .exit, es => es <+: closing false ++ [.returned]
  | .standby, _ | .active, _ | .inactive, _ => True

def Finished : Command → List Event → System → Prop
  | .restart, es, _ => ∃ ok rest, es = closing true ++ .cecOpen ok :: rest
  | .exit, es, s => es = closing false ++ [.returned] ∧ s.pc = .returned
  | .standby, _, _ | .active, _, _ | .inactive, _, _ => True

/-- The loop did nothing else so far, and left to itself it gets through. -/
def EndsSession (cmd : Command) (post : List Event) (s : System) : Prop :=
  Follows cmd (loopEvents post) ∧
    (s.killed = false → ∃ n t fs, run System.step s (List.replicate n (.loop true)) =
      some (t,fs) ∧ Finished cmd (loopEvents (post ++ fs)) t)

def restartAfter (tr : List Event) : Bool := (processed tr).any (· == .restart)

theorem restartAfter_append (tr es : List Event) :
    restartAfter (tr ++ es) = (restartAfter tr || restartAfter es) := by
  simp [restartAfter]

theorem any_restart_eq_false {cs : List Command} (h : ∀ c ∈ cs, c.endsSession = false) :
    cs.any (· == .restart) = false := by
  rw [List.any_eq_false]
  intro c hc hce
  have hf := h c hc
  rw [beq_iff_eq.mp hce] at hf
  simp [Command.endsSession] at hf

theorem Drained.restart_eq {m m' : Main} {restart restart' : Bool} {es : List Event}
    (hd : Drained m restart m' restart' es) : restart' = (restart || restartAfter es) := by
  cases hr : m.running with
  | false =>
    obtain ⟨hp,_,h⟩ := hd.idle hr
    simp [restartAfter,hp,h]
  | true =>
    rcases hd.outcome hr with ⟨_,_,h,hall⟩ | ⟨init,c,hp,_,_,h,hall⟩
    · simp [restartAfter,any_restart_eq_false hall,h]
    · simp [restartAfter,hp,any_restart_eq_false hall,h]

theorem step_restart {s t : System} {a : Action} {es : List Event}
    (h : s.step a = some (t,es)) : t.restart = (s.restart || restartAfter es) := by
  rcases System.step_move_or_aside h with hm | ha
  · cases hm with
    | passed hp m restart es hd => exact hd.restart_eq
    | _ => exact (Bool.or_false _).symm
  · simp [restartAfter,ha.processed_nil,ha.restart]

/-- Where the loop stands after a session's last command, and what it has done since. -/
inductive ClosesWith (r : Bool) (post : List Event) (s : System) : Prop where
  | waiting (hr : s.restart = r) (hrun : s.main.running = false) (hpc : s.pc = .wait)
      (h : loopEvents post = [])
  | resetting (hr : s.restart = r) (hpc : s.pc = .signalReset) (h : loopEvents post = [])
  | cecClosing (hr : s.restart = r) (hpc : s.pc = .cecClose) (h : loopEvents post = [.signalReset])
  | lircClosing (hr : s.restart = r) (hpc : s.pc = .lircClose)
      (h : loopEvents post = [.signalReset,.cecClose (!r)])
  | closed (hr : s.restart = r) (hpc : s.pc = .whileRestart) (h : loopEvents post = closing r)
  | reopening (hr : r = true) (hpc : s.pc = .cecOpen) (h : loopEvents post = closing true)
  | reopened (hr : r = true) (ok : Bool) (rest : List Event)
      (h : loopEvents post = closing true ++ .cecOpen ok :: rest)
  | returned (hr : r = false) (hpc : s.pc = .returned)
      (h : loopEvents post = closing false ++ [.returned])

theorem ClosesWith.aside {r : Bool} {post es : List Event} {s t : System}
    (h : ClosesWith r post s) (ha : s.Aside t es) : ClosesWith r (post ++ es) t := by
  have hq : loopEvents (post ++ es) = loopEvents post := by
    rw [loopEvents_append,ha.main.quiet,List.append_nil]
  have hr := ha.restart
  have hpc := ha.pc
  cases h with
  | waiting hr' hrun hpc' h =>
    exact .waiting (hr.trans hr') (ha.main.running.trans hrun) (hpc.trans hpc') (hq.trans h)
  | resetting hr' hpc' h => exact .resetting (hr.trans hr') (hpc.trans hpc') (hq.trans h)
  | cecClosing hr' hpc' h => exact .cecClosing (hr.trans hr') (hpc.trans hpc') (hq.trans h)
  | lircClosing hr' hpc' h => exact .lircClosing (hr.trans hr') (hpc.trans hpc') (hq.trans h)
  | closed hr' hpc' h => exact .closed (hr.trans hr') (hpc.trans hpc') (hq.trans h)
  | reopening hr' hpc' h => exact .reopening hr' (hpc.trans hpc') (hq.trans h)
  | reopened hr' ok rest h => exact .reopened hr' ok rest (hq.trans h)
  | returned hr' hpc' h => exact .returned hr' (hpc.trans hpc') (hq.trans h)

theorem ClosesWith.move {r : Bool} {post es : List Event} {s t : System}
    (h : ClosesWith r post s) (hm : LoopMove s t es) : ClosesWith r (post ++ es) t := by
  cases h with
  | waiting hr hrun hpc h =>
    cases hm with
    | left hp hr' => exact .resetting hr rfl (by simp [h])
    | again hp hr' => simp [hrun] at hr'
    | _ => simp_all
  | resetting hr hpc h =>
    cases hm with
    | signalsReset hp => exact .cecClosing hr rfl (by rw [loopEvents_append,h]; rfl)
    | _ => simp_all
  | cecClosing hr hpc h =>
    cases hm with
    | cecClosed hp => exact .lircClosing hr rfl (by rw [loopEvents_append,h,hr]; rfl)
    | _ => simp_all
  | lircClosing hr hpc h =>
    cases hm with
    | lircClosed hp => exact .closed hr rfl (by rw [loopEvents_append,h]; rfl)
    | _ => simp_all
  | closed hr hpc h =>
    cases hm with
    | reopened hp hr' =>
      have hrt := hr.symm.trans hr'
      exact .reopening hrt rfl (by simp [h,hrt])
    | returned hp hr' =>
      have hrf := hr.symm.trans hr'
      exact .returned hrf rfl (by rw [loopEvents_append,h,hrf]; rfl)
    | _ => simp_all
  | reopening hr hpc h =>
    cases hm with
    | opened hp => exact .reopened hr true [] (by rw [loopEvents_append,h]; rfl)
    | openThrew hp => exact .reopened hr false [] (by rw [loopEvents_append,h]; rfl)
    | _ => simp_all
  | reopened hr ok rest h =>
    exact .reopened hr ok (rest ++ loopEvents es) (by rw [loopEvents_append,h]; simp)
  | returned hr hpc h => cases hm <;> simp_all

theorem ClosesWith.step {r : Bool} {post es : List Event} {s t : System} {a : Action}
    (h : ClosesWith r post s) (hs : s.step a = some (t,es)) : ClosesWith r (post ++ es) t := by
  rcases System.step_move_or_aside hs with hm | ha
  · exact h.move hm
  · exact h.aside ha

theorem closesWith_made {s t : System} {a : Action} {es p post : List Event} {cmd : Command}
    (hs : s.step a = some (t,es)) (hes : es = p ++ .processed cmd :: post)
    (hend : cmd.endsSession = true) :
    ClosesWith (s.restart || cmd == .restart) post t := by
  obtain ⟨hpc,hd⟩ := System.step_processed hs hes
  obtain ⟨hquiet,hrun,hr⟩ := (hd.split hes).2.2 hend
  exact .waiting hr hrun hpc hquiet

section Runs

variable {c : Settings} {as : List Action} {s : System} {tr : List Event}

theorem run_closesWith (hr : run System.step (.initial c) as = some (s,tr))
    {pre post : List Event} {cmd : Command} (hsplit : tr = pre ++ .processed cmd :: post)
    (hend : cmd.endsSession = true) :
    ClosesWith (restartAfter (pre ++ [.processed cmd])) post s := by
  refine forall_events (G := fun _ _ => True) (J := fun s tr => s.restart = restartAfter tr)
    (P := fun pre e post s => ∀ cmd, e = .processed cmd → cmd.endsSession = true →
      ClosesWith (restartAfter (pre ++ [.processed cmd])) post s)
    ?_ ?_ ?_ rfl (everyStep_true _ _ _) hr hsplit cmd rfl hend
  · intro s tr a t es hI _ hs
    rw [restartAfter_append,← hI]
    exact step_restart hs
  · rintro s tr a t es p _ post hI - hs hes cmd rfl hend
    have hmade := closesWith_made hs hes hend
    have hp : restartAfter (tr ++ p ++ [.processed cmd]) = (s.restart || cmd == .restart) := by
      have hd := (System.step_processed hs hes).2
      have hnone : restartAfter p = false := any_restart_eq_false (hd.split hes).2.1
      rw [restartAfter_append,restartAfter_append,hnone,← hI,Bool.or_false]
      simp [restartAfter]
    rw [hp]
    exact hmade
  · intro s a t es pre e post _ _ hs hP cmd he hend
    exact (hP cmd he hend).step hs

end Runs

def Pc.toGo : Pc → Nat
  | .wait => 6
  | .signalReset => 5
  | .cecClose => 4
  | .lircClose => 3
  | .whileRestart => 2
  | .cecOpen => 1
  | _ => 0

def Through (r : Bool) (post : List Event) (s : System) : Prop :=
  (r = true ∧ ∃ ok rest, loopEvents post = closing true ++ .cecOpen ok :: rest) ∨
    (r = false ∧ loopEvents post = closing false ++ [.returned] ∧ s.pc = .returned)

theorem ClosesWith.progress {r : Bool} {post : List Event} {s : System}
    (h : ClosesWith r post s) (hk : s.killed = false) : Through r post s ∨
      ∃ t es, s.step (.loop true) = some (t,es) ∧ t.killed = false ∧ t.pc.toGo < s.pc.toGo := by
  have hgo : ∀ t es, s.loopStep true = some (t,es) → t.killed = s.killed →
      t.pc.toGo < s.pc.toGo → Through r post s ∨
        ∃ t es, s.step (.loop true) = some (t,es) ∧ t.killed = false ∧ t.pc.toGo < s.pc.toGo := by
    intro t es hs hkt hlt
    refine .inr ⟨t,es,?_,hkt.trans hk,hlt⟩
    simp [System.step,hk,hs]
  cases h with
  | waiting hr hrun hpc h =>
    exact hgo { s with pc := .signalReset } [] (by simp [System.loopStep,hpc,hrun]) rfl
      (by simp [hpc,Pc.toGo])
  | resetting hr hpc h =>
    exact hgo { s with pc := .cecClose, disposition := fun _ => .default } [.signalReset]
      (by simp [System.loopStep,hpc]) rfl (by simp [hpc,Pc.toGo])
  | cecClosing hr hpc h =>
    exact hgo { s with pc := .lircClose } [.cecClose (!s.restart)]
      (by simp [System.loopStep,hpc]) rfl (by simp [hpc,Pc.toGo])
  | lircClosing hr hpc h =>
    exact hgo { s with pc := .whileRestart } [.lircClose] (by simp [System.loopStep,hpc]) rfl
      (by simp [hpc,Pc.toGo])
  | closed hr hpc h =>
    by_cases hres : s.restart = true
    · exact hgo { s with pc := .cecOpen } [] (by simp [System.loopStep,hpc,hres]) rfl
        (by simp [hpc,Pc.toGo])
    · exact hgo { s with pc := .returned } [.returned] (by simp [System.loopStep,hpc,hres]) rfl
        (by simp [hpc,Pc.toGo])
  | reopening hr hpc h =>
    exact hgo { s with pc := .lircOpen } [.cecOpen true] (by simp [System.loopStep,hpc]) rfl
      (by simp [hpc,Pc.toGo])
  | reopened hr ok rest h => exact .inl (.inl ⟨hr,ok,rest,h⟩)
  | returned hr hpc h => exact .inl (.inr ⟨hr,h,hpc⟩)

theorem ClosesWith.completes {r : Bool} (n : Nat) {post : List Event} {s : System}
    (h : ClosesWith r post s) (hk : s.killed = false) (hn : s.pc.toGo ≤ n) :
    ∃ n t fs, run System.step s (List.replicate n (.loop true)) = some (t,fs) ∧
      Through r (post ++ fs) t := by
  induction n generalizing post s with
  | zero =>
    rcases h.progress hk with hd | ⟨_,_,_,_,hlt⟩
    · exact ⟨0,s,[],rfl,by simpa using hd⟩
    · omega
  | succ n ih =>
    rcases h.progress hk with hd | ⟨t,es,hs,hkt,hlt⟩
    · exact ⟨0,s,[],rfl,by simpa using hd⟩
    · obtain ⟨k,u,fs,hrun,hdone⟩ := ih (h.step hs) hkt (by omega)
      refine ⟨k + 1,u,es ++ fs,?_,by simpa using hdone⟩
      rw [List.replicate_succ]
      exact run_cons_iff.mpr ⟨t,es,fs,hs,hrun,rfl⟩

theorem ClosesWith.follows {r : Bool} {post : List Event} {s : System}
    (h : ClosesWith r post s) :
    (r = true → Follows .restart (loopEvents post)) ∧
      (r = false → Follows .exit (loopEvents post)) := by
  have hpre : ∀ k es, es = (closing r).take k → (r = true → Follows .restart es) ∧
      (r = false → Follows .exit es) := by
    rintro k es rfl
    refine ⟨fun hr => ?_,fun hr => ?_⟩
    · rw [hr]
      exact .inl (List.take_prefix _ _)
    · rw [hr]
      exact (List.take_prefix _ _).trans (List.prefix_append _ _)
  cases h with
  | waiting hr hrun hpc h => exact hpre 0 _ h
  | resetting hr hpc h => exact hpre 0 _ h
  | cecClosing hr hpc h => exact hpre 1 _ h
  | lircClosing hr hpc h => exact hpre 2 _ h
  | closed hr hpc h => exact hpre 3 _ h
  | reopening hr hpc h => exact hpre 3 _ (by rw [h,hr]; rfl)
  | reopened hr ok rest h => exact ⟨fun _ => .inr ⟨ok,rest,h⟩,fun hf => by simp [hr] at hf⟩
  | returned hr hpc h =>
    refine ⟨fun ht => by simp [hr] at ht,fun _ => ?_⟩
    rw [h]
    exact List.prefix_rfl

theorem ClosesWith.endsSession {r : Bool} {post : List Event} {s : System} {cmd : Command}
    (h : ClosesWith r post s) (hend : cmd.endsSession = true) (hr : r = (cmd == .restart)) :
    EndsSession cmd post s := by
  subst hr
  cases cmd with
  | restart =>
    refine ⟨h.follows.1 rfl,fun hk => ?_⟩
    obtain ⟨n,t,fs,hrun,hd | hd⟩ := h.completes _ hk (Nat.le_refl _)
    · exact ⟨n,t,fs,hrun,hd.2⟩
    · simp at hd
  | exit =>
    refine ⟨h.follows.2 rfl,fun hk => ?_⟩
    obtain ⟨n,t,fs,hrun,hd | hd⟩ := h.completes _ hk (Nat.le_refl _)
    · simp at hd
    · exact ⟨n,t,fs,hrun,hd.2⟩
  | standby | active | inactive => simp [Command.endsSession] at hend

/-- Once `restart` is set, not even an EXIT ends the run. -/
theorem ClosesWith.not_endsSession_exit {post : List Event} {s : System}
    (h : ClosesWith true post s) (hk : s.killed = false) : ¬ EndsSession .exit post s := by
  intro he
  obtain ⟨n,t,fs,hrun,hfin,hpc⟩ := he.2 hk
  have hpost : ClosesWith true (post ++ fs) t := invariant
    (I := fun t fs => ClosesWith true (post ++ fs) t)
    (fun u gs a v es hI hs => by simpa using hI.step hs) (by simpa using h) hrun
  rcases hpost.follows.1 rfl with hp | ⟨ok,rest,heq⟩
  · rw [hfin] at hp
    exact absurd hp (by decide)
  · rw [hfin] at heq
    simp [closing] at heq

section Runs

variable {c : Settings} {as : List Action} {s : System} {tr : List Event}

/-- Each session ends the way its last command asks for exactly as long as no EXIT
is processed behind a RESTART of the same run. -/
theorem endsSession_iff_no_exit_after_restart
    (hr : run System.step (.initial c) as = some (s,tr)) (hk : s.killed = false) :
    (∀ pre cmd post, tr = pre ++ .processed cmd :: post → cmd.endsSession = true →
        EndsSession cmd post s) ↔
      ∀ pre post, tr = pre ++ .processed .exit :: post → .restart ∉ processed pre := by
  constructor
  · intro h pre post hsplit hmem
    have hcl := run_closesWith hr hsplit rfl
    have htrue : restartAfter (pre ++ [.processed .exit]) = true := by
      rw [restartAfter_append,restartAfter,Bool.or_eq_true]
      exact .inl (by simpa using hmem)
    rw [htrue] at hcl
    exact hcl.not_endsSession_exit hk (h pre .exit post hsplit rfl)
  · intro h pre cmd post hsplit hend
    refine (run_closesWith hr hsplit hend).endsSession hend ?_
    cases cmd with
    | restart => simp [restartAfter]
    | exit =>
      have hno := h pre post hsplit
      rw [restartAfter_append,restartAfter,restartAfter,Bool.or_eq_false_iff.mpr]
      · rfl
      · exact ⟨List.any_eq_false.mpr fun d hd hde => hno (beq_iff_eq.mp hde ▸ hd),rfl⟩
    | standby | active | inactive => simp [Command.endsSession] at hend

end Runs

theorem endsSession_iff_no_exit_after_restart_reopens :
    ∃ s tr, run System.step (.initial .none)
        [.loop true,.loop true,.loop true,.loop true,.loop true,
          .callback (.command ⟨.standby,[]⟩),.callback .restart,.loop true,.loop true,.loop true,
          .loop true,.loop true,.loop true,.loop true] = some (s,tr) ∧
      processed tr = [.standby,.restart] ∧ ∀ pre cmd post, tr = pre ++ .processed cmd :: post →
        cmd.endsSession = true → EndsSession cmd post s := by
  have h : (run System.step (.initial .none)
        [.loop true,.loop true,.loop true,.loop true,.loop true,
          .callback (.command ⟨.standby,[]⟩),.callback .restart,.loop true,.loop true,.loop true,
          .loop true,.loop true,.loop true,.loop true]).map
            (fun r => (processed r.2,r.1.killed)) = some ([.standby,.restart],false) := by decide
  obtain ⟨⟨s,tr⟩,hr,heq⟩ := Option.map_eq_some_iff.mp h
  simp only [Prod.mk.injEq] at heq
  refine ⟨s,tr,hr,heq.1,(endsSession_iff_no_exit_after_restart hr heq.2).mpr ?_⟩
  intro pre post hsplit
  have hp := heq.1
  rw [hsplit,processed_append,processed_cons] at hp
  have hmem : Command.exit ∈ [Command.standby,.restart] := by rw [← hp]; simp
  simp at hmem

/-- A restart, and an exit in the session it opened: the loop closes with
`cec.close(false)` and opens a third session. -/
theorem exit_after_restart_reopens :
    ∃ as s pre post,
      run System.step (.initial .none) as = some (s,pre ++ .processed .exit :: post) ∧
        s.killed = false ∧ ¬ EndsSession .exit post s := by
  refine ⟨[.loop true,.loop true,.loop true,.loop true,.loop true,.callback .restart,
    .loop true,.loop true,.loop true,.loop true,.loop true,.loop true,
    .loop true,.loop true,.loop true,.loop true,.loop true,.callback .stop,
    .loop true,.loop true,.loop true,.loop true,.loop true,.loop true,.loop true],_,
    [.cecOpen true,.lircOpen true,.setRunning,.sigaction,.makeActive true,.accepted .restart,
      .processed .restart,.signalReset,.cecClose false,.lircClose,
      .cecOpen true,.lircOpen true,.setRunning,.sigaction,.makeActive true,.accepted .exit],
    [.signalReset,.cecClose false,.lircClose,.cecOpen true],rfl,rfl,?_⟩
  intro h
  have hf : [Event.signalReset,.cecClose false,.lircClose,.cecOpen true] <+:
    closing false ++ [.returned] := h.1
  exact absurd hf (by decide)

end Ceclircd
