import Ceclircd.CommandQueue
import Ceclircd.LoopCleanup
import Ceclircd.SessionEnds
set_option autoImplicit false

/-! How long an accepted command waits: the loop's own statements are counted, the
restarts queued ahead of the command are what costs them. -/

namespace Ceclircd
open RunTrace

/-- `cec.open` or `cec.makeActive` threw, or `mylirc.Open` returned false. -/
def Event.failed : Event → Bool
  | .cecOpen false | .lircOpen false | .makeActive false => true
  | _ => false

def Action.isLoop : Action → Bool
  | .loop _ => true
  | .callback _ | .signal _ => false

def System.closing (s : System) : Bool :=
  match s.pc with
  | .wait => !s.main.running
  | .signalReset | .cecClose | .lircClose | .whileRestart => true
  | _ => false

/-- The statements up to and with the next locked pass of a running session. -/
def Pc.toPass (running : Bool) : Pc → Nat
  | .pass => 1
  | .wait => if running then 2 else 11
  | .makeActive => 2
  | .sigaction => 3
  | .setRunning => 4
  | .lircOpen => 5
  | .cecOpen => 6
  | .whileRestart => 7
  | .lircClose => 8
  | .cecClose => 9
  | .signalReset => 10
  | .returned | .threw => 0

def System.toPass (s : System) : Nat := s.pc.toPass s.main.running

structure Placed (s : System) (tr : List Event) : Prop where
  restart : s.restart = restartAfter tr
  running : s.pc = .sigaction ∨ s.pc = .makeActive ∨ s.pc = .pass → s.main.running = true
  ended : s.closing = true → ∃ c ∈ processed tr, c.endsSession = true
  left : s.pc.left = true → tr.any Event.failed = true ∨
    ((∃ c ∈ processed tr, c.endsSession = true) ∧ restartAfter tr = false)

theorem Placed.aside {s t : System} {tr es : List Event} (h : Placed s tr)
    (ha : s.Aside t es) : Placed t (tr ++ es) := by
  have hp : processed (tr ++ es) = processed tr := by
    rw [processed_append,ha.processed_nil,List.append_nil]
  have hr : restartAfter (tr ++ es) = restartAfter tr := by simp only [restartAfter,hp]
  refine ⟨ha.restart.trans (h.restart.trans hr.symm),?_,?_,?_⟩
  · rw [ha.pc,ha.main.running]
    exact h.running
  · unfold System.closing
    rw [ha.pc,ha.main.running,hp]
    exact h.ended
  · rw [ha.pc,hp,hr,List.any_append,Bool.or_eq_true]
    rintro hl
    rcases h.left hl with hf | he
    · exact .inl (.inl hf)
    · exact .inr he

theorem Placed.move {s t : System} {tr es : List Event} (h : Placed s tr)
    (hm : LoopMove s t es) (hr : t.restart = (s.restart || restartAfter es)) :
    Placed t (tr ++ es) := by
  have hrt : t.restart = restartAfter (tr ++ es) := by rw [hr,h.restart,restartAfter_append]
  have hrun := h.running
  have hended := h.ended
  have hkeep : (∃ c ∈ processed tr, c.endsSession = true) →
      ∃ c ∈ processed (tr ++ es), c.endsSession = true := fun ⟨c,hc,he⟩ => ⟨c,by simp [hc],he⟩
  cases hm with
  | opened hp | lircOpened hp | reopened hp _ =>
    exact ⟨hrt,by simp,by simp [System.closing],by simp [Pc.left]⟩
  | started hp | activated hp _ | notActivated hp _ | installed hp =>
    exact ⟨hrt,by simp_all,by simp [System.closing],by simp [Pc.left]⟩
  | openThrew hp | lircFailed hp | activateThrew hp _ =>
    exact ⟨hrt,by simp,by simp [System.closing],fun _ => .inl (by simp [Event.failed])⟩
  | passed hp m restart es hd =>
    refine ⟨hrt,by simp,fun hc => ?_,by simp [Pc.left]⟩
    rcases hd.outcome (hrun (by simp [hp])) with ⟨hm,_⟩ | ⟨init,c,hpr,hce,_⟩
    · simp [System.closing,hm] at hc
    · exact ⟨c,by simp [hpr],hce⟩
  | again hp hr' => exact ⟨hrt,fun _ => hr',by simp [System.closing],by simp [Pc.left]⟩
  | left hp hr' =>
    exact ⟨hrt,by simp,fun _ => hkeep (hended (by simp [System.closing,hp,hr'])),by simp [Pc.left]⟩
  | signalsReset hp | cecClosed hp | lircClosed hp =>
    exact ⟨hrt,by simp,fun _ => hkeep (hended (by simp [System.closing,hp])),by simp [Pc.left]⟩
  | returned hp hr' =>
    refine ⟨hrt,by simp,by simp [System.closing],fun _ => .inr ⟨?_,hrt.symm.trans hr'⟩⟩
    exact hkeep (hended (by simp [System.closing,hp]))

theorem Placed.step {s t : System} {a : Action} {tr es : List Event} (h : Placed s tr)
    (hs : s.step a = some (t,es)) : Placed t (tr ++ es) := by
  rcases System.step_move_or_aside hs with hm | ha
  · exact h.move hm (step_restart hs)
  · exact h.aside ha

theorem initial_placed (c : Settings) : Placed (.initial c) [] :=
  ⟨rfl,by simp [System.initial],by simp [System.initial,System.closing],
    by simp [System.initial,Pc.left]⟩

/-- Every EXIT among these commands comes after a RESTART, so none of them ends the run. -/
def CarriesOn (cmds : List Command) : Prop := ∀ p, p ++ [.exit] <+: cmds → .restart ∈ p

/-- The session-ending commands that are still ahead of the one behind `pre`. -/
def endsAhead (pre : List Command) (tr : List Event) : Nat :=
  (pre.drop (processed tr).length).countP Command.endsSession

structure Awaiting (pre : List Command) (cmd : Command) (s : System) (tr : List Event) :
    Prop where
  placed : Placed s tr
  queued : ∃ q later, s.main.commands = q ++ cmd :: later ∧ pre = processed tr ++ q

def Served (pre : List Command) (cmd : Command) (tr : List Event) : Prop :=
  pre ++ [cmd] <+: processed tr ∨ tr.any Event.failed = true

variable {pre : List Command} {cmd : Command} {s t : System} {tr es : List Event}

theorem CarriesOn.restart (h : CarriesOn pre) (hpre : processed tr <+: pre)
    (hend : ∃ c ∈ processed tr, c.endsSession = true) : restartAfter tr = true := by
  obtain ⟨c,hc,he⟩ := hend
  rw [restartAfter,List.any_eq_true]
  cases c with
  | restart => exact ⟨.restart,hc,rfl⟩
  | exit =>
    obtain ⟨p,q,hpq⟩ := List.append_of_mem hc
    have hp : p ++ [.exit] <+: processed tr := ⟨q,by simp [hpq]⟩
    exact ⟨.restart,by simp [hpq,h p (hp.trans hpre)],rfl⟩
  | standby | active | inactive => simp [Command.endsSession] at he

theorem endsAhead_append (tr : List Event) (q : List Command) :
    endsAhead (processed tr ++ q) tr = q.countP Command.endsSession := by
  rw [endsAhead,List.drop_left]

/-- A locked pass either takes the command or ends the session on one ahead of it. -/
theorem Awaiting.passed {m : Main} {restart : Bool} (h : Awaiting pre cmd s tr)
    (hp : s.pc = .pass) (hd : Drained s.main s.restart m restart es) :
    pre ++ [cmd] <+: processed (tr ++ es) ∨
      (m.running = false ∧ endsAhead pre (tr ++ es) + 1 = endsAhead pre tr ∧
        ∃ q later, m.commands = q ++ cmd :: later ∧ pre = processed (tr ++ es) ++ q) := by
  obtain ⟨q,later,hq,rfl⟩ := h.queued
  have hqueue := hd.queue.symm.trans hq
  rcases RunTrace.append_eq_split hqueue with ⟨q',hpr,_⟩ | ⟨q',rfl,hrest⟩
  · refine .inl ⟨q',?_⟩
    simp [hpr]
  · have happ : processed tr ++ (processed es ++ q') = processed (tr ++ es) ++ q' := by simp
    rcases hd.outcome (h.placed.running (by simp [hp])) with ⟨_,hnil,_⟩ | ⟨init,c,hpr,hce,hr,_,hall⟩
    · simp [hnil] at hrest
    · refine .inr ⟨hr,?_,q',later,hrest,happ⟩
      have hinit : init.countP Command.endsSession = 0 :=
        List.countP_eq_zero.mpr fun d hd => by simp [hall d hd]
      have hlast : [c].countP Command.endsSession = 1 := by simp [hce]
      rw [endsAhead_append,happ,endsAhead_append,List.countP_append,hpr,List.countP_append,hinit,
        hlast]
      omega

theorem Awaiting.kept (h : Awaiting pre cmd s tr) (ht : Placed t (tr ++ es))
    (hq : t.main.commands = s.main.commands ++ accepted es) (hp : processed es = []) :
    Awaiting pre cmd t (tr ++ es) ∧ endsAhead pre (tr ++ es) = endsAhead pre tr := by
  obtain ⟨q,later,hc,hpre⟩ := h.queued
  have hpr : processed (tr ++ es) = processed tr := by rw [processed_append,hp,List.append_nil]
  refine ⟨⟨ht,q,later ++ accepted es,by simp [hq,hc],by rw [hpr,hpre]⟩,by rw [endsAhead,hpr]; rfl⟩

def Awaiting.rank (pre : List Command) (s : System) (tr : List Event) : Nat :=
  11 * endsAhead pre tr + s.toPass

theorem Awaiting.move (h : Awaiting pre cmd s tr) (hpre : CarriesOn pre)
    (hm : LoopMove s t es) (ht : Placed t (tr ++ es)) :
    Served pre cmd (tr ++ es) ∨
      (Awaiting pre cmd t (tr ++ es) ∧ rank pre t (tr ++ es) + 1 ≤ rank pre s tr) := by
  have hstay : t.main.commands = s.main.commands → accepted es = [] → processed es = [] →
      t.toPass + 1 ≤ s.toPass → Awaiting pre cmd t (tr ++ es) ∧
        rank pre t (tr ++ es) + 1 ≤ rank pre s tr := by
    intro hc ha hp hlt
    have hk := h.kept ht (by rw [hc,ha,List.append_nil]) hp
    refine ⟨hk.1,?_⟩
    rw [rank,rank,hk.2]
    omega
  cases hm with
  | openThrew hp | lircFailed hp | activateThrew hp _ =>
    exact .inl (.inr (by simp [Event.failed]))
  | passed hp m restart es hd =>
    rcases h.passed hp hd with hs | ⟨hr,hlt,hq⟩
    · exact .inl (.inl hs)
    · have hbefore : s.toPass = 1 := by rw [System.toPass,hp]; rfl
      have hafter : Pc.toPass m.running .wait = 11 := by rw [hr]; rfl
      refine .inr ⟨⟨ht,hq⟩,?_⟩
      rw [rank,rank,hbefore,System.toPass,hafter]
      omega
  | returned hp hr =>
    -- a session ended, so a RESTART was processed, and the loop goes on
    obtain ⟨q,_,_,hq⟩ := h.queued
    have hres := hpre.restart ⟨q,hq.symm⟩ (h.placed.ended (by simp [System.closing,hp]))
    rw [← h.placed.restart,hr] at hres
    simp at hres
  | again hp hr | left hp hr =>
    exact .inr (hstay rfl rfl rfl (by simp [System.toPass,Pc.toPass,hp,hr]))
  | _ hp => exact .inr (hstay rfl rfl rfl (by simp [System.toPass,Pc.toPass,hp]))

theorem Awaiting.step {a : Action} (h : Awaiting pre cmd s tr) (hpre : CarriesOn pre)
    (hs : s.step a = some (t,es)) : Served pre cmd (tr ++ es) ∨
      (Awaiting pre cmd t (tr ++ es) ∧ rank pre t (tr ++ es) + a.isLoop.toNat ≤ rank pre s tr) := by
  have ht := h.placed.step hs
  cases a with
  | loop ok => exact h.move hpre (System.step_loop hs) ht
  | callback _ | signal _ =>
    have ha := System.step_aside hs (by simp)
    have hk := h.kept ht ha.main.commands ha.processed_nil
    refine .inr ⟨hk.1,?_⟩
    have hto : t.toPass = s.toPass := by rw [System.toPass,ha.pc,ha.main.running,System.toPass]
    simp [rank,hk.2,hto,Action.isLoop]

theorem Served.append (h : Served pre cmd tr) (es : List Event) : Served pre cmd (tr ++ es) := by
  rcases h with h | h
  · exact .inl (by rw [processed_append]; exact h.trans (List.prefix_append _ _))
  · exact .inr (by rw [List.any_append,h,Bool.true_or])

theorem Pc.toPass_le (b : Bool) (p : Pc) : p.toPass b ≤ 11 := by
  cases p <;> cases b <;> decide

theorem Pc.toPass_pos (b : Bool) {p : Pc} (h : p.left = false) : 0 < p.toPass b := by
  cases p with
  | returned | threw => simp [left] at h
  | _ => cases b <;> decide

theorem Drained.upTo {m m' : Main} {restart restart' : Bool} {q later : List Command}
    (hd : Drained m restart m' restart' es) (hr : m.running = true)
    (hq : m.commands = q ++ cmd :: later) (hno : ∀ c ∈ q, c.endsSession = false)
    (hend : cmd.endsSession = true) :
    processed es = q ++ [cmd] ∧ m'.running = false ∧ restart' = (restart || cmd == .restart) := by
  have hqueue := hd.queue.symm.trans hq
  rcases hd.outcome hr with ⟨_,hnil,_,hall⟩ | ⟨init,c,hpr,hce,hrun,hres,hall⟩
  · rw [hnil,List.append_nil] at hqueue
    have hn := hall cmd (by simp [hqueue])
    simp [hend] at hn
  · rcases RunTrace.append_eq_split hqueue with ⟨q',hsplit,_⟩ | ⟨p,hp,_⟩
    · rcases RunTrace.append_eq_split (hpr.symm.trans hsplit) with ⟨x,hx,_⟩ | ⟨x,hx,hlast⟩
      · have hn := hall cmd (by simp [hx])
        simp [hend] at hn
      · cases x with
        | nil =>
          simp only [List.nil_append,List.cons.injEq] at hlast
          obtain ⟨rfl,_⟩ := hlast
          rw [List.append_nil] at hx
          exact ⟨by rw [hpr,hx],hrun,hres⟩
        | cons y x => simp at hlast
    · have hn := hno c (by simp [hp,hpr])
      simp [hce] at hn

/-- EXIT is queued with nothing ahead of it that ends a session, or has ended this one. -/
structure Leaving (pre : List Command) (s : System) (tr : List Event) : Prop where
  placed : Placed s tr
  stage : (Awaiting pre .exit s tr ∧ s.closing = false) ∨ (s.closing = true ∧ s.restart = false)

def System.toReturn (s : System) : Nat :=
  if s.closing then s.pc.toGo else 6 + s.toPass

theorem System.toReturn_le (s : System) : s.toReturn ≤ 12 := by
  unfold toReturn closing toPass
  cases s.pc <;> cases s.main.running <;> decide

theorem System.toReturn_pos (h : s.pc.left = false) : 0 < s.toReturn := by
  have hpos := Pc.toPass_pos s.main.running h
  unfold toReturn
  split
  case isTrue hc =>
    revert hc
    unfold closing
    cases s.pc <;> simp [Pc.toGo]
  case isFalse => omega

theorem Leaving.move (h : Leaving pre s tr) (hno : ∀ c ∈ pre, c.endsSession = false)
    (hm : LoopMove s t es) (ht : Placed t (tr ++ es)) :
    t.pc.left = true ∨ (Leaving pre t (tr ++ es) ∧ t.toReturn + 1 ≤ s.toReturn) := by
  rcases h.stage with ⟨ha,hc⟩ | ⟨hc,hr⟩
  · have hstay : t.main.commands = s.main.commands → accepted es = [] → processed es = [] →
        t.closing = false → t.toPass + 1 ≤ s.toPass →
          Leaving pre t (tr ++ es) ∧ t.toReturn + 1 ≤ s.toReturn := by
      intro hcmd hacc hp hct hlt
      refine ⟨⟨ht,.inl ⟨(ha.kept ht (by rw [hcmd,hacc,List.append_nil]) hp).1,hct⟩⟩,?_⟩
      simp only [System.toReturn,hc,hct,Bool.false_eq_true,if_false]
      omega
    cases hm with
    | openThrew hp | lircFailed hp | activateThrew hp _ => exact .inl rfl
    | passed hp m restart es hd =>
      obtain ⟨q,later,hq,hpre⟩ := ha.queued
      have hsame : restartAfter tr = false :=
        any_restart_eq_false fun c hc => hno c (by simp [hpre,hc])
      obtain ⟨_,hrun,hres⟩ := hd.upTo (ha.placed.running (by simp [hp])) hq
        (fun c hc => hno c (by simp [hpre,hc])) rfl
      refine .inr ⟨⟨ht,.inr ⟨by simp [System.closing,hrun],?_⟩⟩,?_⟩
      · simp [hres,ha.placed.restart,hsame]
      · simp [System.toReturn,System.closing,System.toPass,Pc.toPass,Pc.toGo,hrun,hp]
    | again hp hr =>
      exact .inr (hstay rfl rfl rfl rfl (by simp [System.toPass,Pc.toPass,hp,hr]))
    | left hp hr => simp [System.closing,hp,hr] at hc
    | signalsReset hp | cecClosed hp | lircClosed hp | reopened hp _ | returned hp _ =>
      simp [System.closing,hp] at hc
    | _ hp => exact .inr (hstay rfl rfl rfl rfl (by simp [System.toPass,Pc.toPass,hp]))
  · cases hm with
    | left hp _ | signalsReset hp | cecClosed hp | lircClosed hp =>
      refine .inr ⟨⟨ht,.inr ⟨rfl,hr⟩⟩,?_⟩
      rw [System.toReturn,System.toReturn,if_pos hc,hp]
      exact Nat.le_refl _
    | reopened hp hr' => simp [hr] at hr'
    | returned hp _ => exact .inl rfl
    | again hp hrun => simp [System.closing,hp,hrun] at hc
    | _ hp => simp [System.closing,hp] at hc

theorem Leaving.step {a : Action} (h : Leaving pre s tr)
    (hno : ∀ c ∈ pre, c.endsSession = false) (hs : s.step a = some (t,es)) :
    t.pc.left = true ∨ (Leaving pre t (tr ++ es) ∧ t.toReturn + a.isLoop.toNat ≤ s.toReturn) := by
  have ht := h.placed.step hs
  cases a with
  | loop ok => exact h.move hno (System.step_loop hs) ht
  | callback _ | signal _ =>
    have ha := System.step_aside hs (by simp)
    have hrun : t.main.running = s.main.running := ha.main.running
    have hc : t.closing = s.closing := by simp only [System.closing,ha.pc,hrun]
    have hto : t.toReturn = s.toReturn := by
      simp only [System.toReturn,System.toPass,hc,ha.pc,hrun]
    refine .inr ⟨⟨ht,?_⟩,by simp [hto,Action.isLoop]⟩
    rcases h.stage with ⟨hw,hcs⟩ | ⟨hcs,hr⟩
    · exact .inl ⟨(hw.kept ht ha.main.commands ha.processed_nil).1,hc.trans hcs⟩
    · exact .inr ⟨hc.trans hcs,ha.restart.trans hr⟩

section Runs

variable {c : Settings} {as bs : List Action} {later : List Command}

theorem run_placed (hr : run System.step (.initial c) as = some (s,tr)) : Placed s tr :=
  invariant (fun _ _ _ _ _ h hs => h.step hs) (initial_placed c) hr

theorem served_or_awaiting (hr : run System.step (.initial c) as = some (s,tr))
    (hacc : accepted tr = pre ++ cmd :: later) : Served pre cmd tr ∨ Awaiting pre cmd s tr := by
  have hq := (run_queue hr).symm.trans hacc
  rcases RunTrace.append_eq_split hq with ⟨q,hp,_⟩ | ⟨q,hp,hrest⟩
  · exact .inl (.inl ⟨q,by simp [hp]⟩)
  · exact .inr ⟨run_placed hr,q,later,hrest,hp⟩

/-- Once accepted, a command with no EXIT ahead of it that ends the run is processed by the
time the loop has made eleven statements, and eleven more for each session that ends first,
whatever the callbacks and signals do, unless opening or activating fails. -/
theorem accepted_command_processed (hr : run System.step (.initial c) as = some (s,tr))
    (hacc : accepted tr = pre ++ cmd :: later) (hpre : CarriesOn pre)
    (hr' : run System.step s bs = some (t,es)) :
    pre ++ [cmd] <+: processed (tr ++ es) ∨ (tr ++ es).any Event.failed = true ∨
      (bs.countP Action.isLoop < 11 * (endsAhead pre tr + 1) ∧ t.pc.left = false) := by
  have hkeep : ∀ (s : System) tr a (t : System) es, Served pre cmd tr →
      s.step a = some (t,es) → Served pre cmd (tr ++ es) := fun _ _ _ _ es h _ => h.append es
  rcases bounded_progress (Awaiting.rank pre) Action.isLoop (fun _ _ _ _ _ h _ hs => h.step hpre hs)
    hkeep tr (served_or_awaiting hr hacc) (everyStep_true _ _ _) hr' with hs | ⟨ht,hle⟩
  · exact or_assoc.mp (.inl hs)
  · obtain ⟨q,_,_,hq⟩ := ht.queued
    have hleft : (tr ++ es).any Event.failed = true ∨ t.pc.left = false := by
      cases hl : t.pc.left with
      | false => exact .inr rfl
      | true =>
        rcases ht.placed.left hl with hf | ⟨hend,hno⟩
        · exact .inl hf
        · simp [hpre.restart ⟨q,hq.symm⟩ hend] at hno
    rcases hleft with hf | hl
    · exact .inr (.inl hf)
    · refine .inr (.inr ⟨?_,hl⟩)
      have hlt := s.pc.toPass_le s.main.running
      have hpos := Pc.toPass_pos t.main.running hl
      simp only [Awaiting.rank,System.toPass] at hle
      omega

theorem accepted_command_processed_restart :
    ∃ s tr t es, run System.step (.initial .none)
        [.loop true,.loop true,.loop true,.loop true,.loop true,.callback .restart,
          .callback (.sourceActivated (-1) false)] = some (s,tr) ∧
      run System.step s (List.replicate 22 (.loop true)) = some (t,es) ∧
      [Command.restart] ++ [.inactive] <+: processed (tr ++ es) := by
  let as : List Action := [.loop true,.loop true,.loop true,.loop true,.loop true,
    .callback .restart,.callback (.sourceActivated (-1) false)]
  have hpre : CarriesOn [.restart] := by
    intro p hp
    have hmem := hp.subset (List.mem_append_right p (List.mem_singleton_self Command.exit))
    simp at hmem
  have h : (run System.step (.initial .none) as).map (fun r => (accepted r.2,endsAhead [.restart] r.2,
      (run System.step r.1 (List.replicate 22 (.loop true))).map
        (fun q => (r.2 ++ q.2).any Event.failed))) =
      some ([.restart,.inactive],1,some false) := by decide
  obtain ⟨⟨s,tr⟩,hr,heq⟩ := Option.map_eq_some_iff.mp h
  simp only [Prod.mk.injEq] at heq
  obtain ⟨hacc,hahead,heq⟩ := heq
  have hacc : accepted tr = [.restart] ++ .inactive :: [] := hacc
  obtain ⟨⟨t,es⟩,hr',hno⟩ := Option.map_eq_some_iff.mp heq
  refine ⟨s,tr,t,es,hr,hr',?_⟩
  rcases accepted_command_processed hr hacc hpre hr' with hs | hf | ⟨hlt,_⟩
  · exact hs
  · simp [hf] at hno
  · rw [hahead] at hlt
    exact absurd hlt (by decide)

theorem ClosesWith.leaving {post : List Event} (h : ClosesWith false post s)
    (hp : Placed s tr) : s.pc.left = true ∨ Leaving pre s tr := by
  cases h with
  | waiting hr hrun hpc _ => exact .inr ⟨hp,.inr ⟨by simp [System.closing,hpc,hrun],hr⟩⟩
  | resetting hr hpc _ | cecClosing hr hpc _ | lircClosing hr hpc _ | closed hr hpc _ =>
    exact .inr ⟨hp,.inr ⟨by simp [System.closing,hpc],hr⟩⟩
  | reopening hr _ _ | reopened hr _ _ _ => simp at hr
  | returned _ hpc _ => exact .inl (by rw [hpc]; rfl)

theorem left_or_leaving (hr : run System.step (.initial c) as = some (s,tr))
    (hacc : accepted tr = pre ++ .exit :: later) (hno : ∀ cmd ∈ pre, cmd.endsSession = false) :
    s.pc.left = true ∨ Leaving pre s tr := by
  have hplaced := run_placed hr
  rcases RunTrace.append_eq_split ((run_queue hr).symm.trans hacc) with ⟨q,hp,_⟩ | ⟨q,hp,hq⟩
  · obtain ⟨p,rest,rfl,hpre,hrest⟩ := List.filterMap_eq_append_iff.mp hp
    obtain ⟨skip,e,post,rfl,hskip,he,_⟩ := List.filterMap_eq_cons_iff.mp hrest
    have hex : e = .processed .exit := by cases e <;> simp_all [Event.processed?]
    have hnone : restartAfter (p ++ skip ++ [.processed .exit]) = false := by
      have hp' : processed (p ++ skip) = pre := by
        rw [processed_append]
        simpa [processed,List.filterMap_eq_nil_iff.mpr hskip] using hpre
      rw [restartAfter_append,restartAfter,hp',any_restart_eq_false hno]
      rfl
    have hsplit : p ++ (skip ++ e :: post) = p ++ skip ++ .processed .exit :: post := by simp [hex]
    have hclose := run_closesWith hr hsplit rfl
    rw [hnone] at hclose
    exact hclose.leaving hplaced
  · refine .inr ⟨hplaced,.inl ⟨⟨hplaced,q,later,hq,hp⟩,?_⟩⟩
    cases hc : s.closing with
    | false => rfl
    | true =>
      obtain ⟨d,hd,hend⟩ := hplaced.ended hc
      simp [hno d (by simp [hp,hd])] at hend

theorem Tidy.cleanedUp (h : Tidy s tr) (hl : s.pc.left = true) : CleanedUp s tr := by
  obtain ⟨hcec,hlirc,hrun,hdef,_⟩ := h
  cases hp : s.pc with
  | returned | threw =>
    rw [hp] at hcec hlirc hrun hdef
    exact ⟨hcec,hlirc,hrun false rfl,hdef rfl⟩
  | _ => simp [hp,Pc.left] at hl

theorem left_step {a : Action} (h : s.pc.left = true) (hs : s.step a = some (t,es)) :
    t.pc.left = true := by
  rcases System.step_move_or_aside hs with hm | ha
  · cases hm with
    | _ hp => simp [hp,Pc.left] at h
  · rw [ha.pc]
    exact h

/-- An EXIT accepted before any command that ends a session has the loop left by the time it
has made twelve statements more, with nothing open behind it unless `cec.makeActive` threw. -/
theorem accepted_exit_leaves (hr : run System.step (.initial c) as = some (s,tr))
    (hacc : accepted tr = pre ++ .exit :: later) (hno : ∀ cmd ∈ pre, cmd.endsSession = false)
    (hr' : run System.step s bs = some (t,es)) :
    (bs.countP Action.isLoop < 12 ∧ t.pc.left = false) ∨
      (t.pc.left = true ∧ (CleanedUp t (tr ++ es) ∨ .makeActive false ∈ tr ++ es)) := by
  have hrun := run_append_iff.mpr ⟨s,tr,es,hr,hr',rfl⟩
  have hclean : t.pc.left = true → CleanedUp t (tr ++ es) ∨ .makeActive false ∈ tr ++ es := by
    intro hl
    rcases run_tidy hrun with ht | ha
    · exact .inl (ht.cleanedUp hl)
    · exact .inr ha.active
  have hkeep : ∀ (s : System) (tr : List Event) a t es, s.pc.left = true →
      s.step a = some (t,es) → t.pc.left = true := fun _ _ _ _ _ h hs => left_step h hs
  cases hl : t.pc.left with
  | true => exact .inr ⟨rfl,hclean hl⟩
  | false =>
    refine .inl ⟨?_,rfl⟩
    have hstep : ∀ (s : System) (tr : List Event) a t es, Leaving pre s tr → True →
        s.step a = some (t,es) → t.pc.left = true ∨
          (Leaving pre t (tr ++ es) ∧ t.toReturn + a.isLoop.toNat ≤ s.toReturn) :=
      fun _ _ _ _ _ h _ hs => h.step hno hs
    rcases bounded_progress (fun s _ => s.toReturn) Action.isLoop hstep hkeep tr
      (left_or_leaving hr hacc hno) (everyStep_true _ _ _) hr' with hleft | ⟨_,hle⟩
    · simp [hl] at hleft
    · have hlt := s.toReturn_le
      have hpos := System.toReturn_pos hl
      omega

theorem accepted_exit_leaves_sigterm :
    ∃ s tr t es, run System.step (.initial .none)
        [.loop true,.loop true,.loop true,.loop true,.loop true,
          .callback (.command ⟨.standby,[]⟩),.signal .term] = some (s,tr) ∧
      run System.step s (List.replicate 6 (.loop true)) = some (t,es) ∧
      t.pc.left = true ∧ CleanedUp t (tr ++ es) := by
  let as : List Action := [.loop true,.loop true,.loop true,.loop true,.loop true,
    .callback (.command ⟨.standby,[]⟩),.signal .term]
  have h : (run System.step (.initial .none) as).map (fun r => (accepted r.2,
      (run System.step r.1 (List.replicate 6 (.loop true))).map
        (fun q => (q.1.pc.left,decide (.makeActive false ∈ r.2 ++ q.2))))) =
      some ([.standby,.exit],some (true,false)) := by decide
  obtain ⟨⟨s,tr⟩,hr,heq⟩ := Option.map_eq_some_iff.mp h
  simp only [Prod.mk.injEq] at heq
  obtain ⟨hacc,heq⟩ := heq
  have hacc : accepted tr = [.standby] ++ .exit :: [] := hacc
  obtain ⟨⟨t,es⟩,hr',hend⟩ := Option.map_eq_some_iff.mp heq
  simp only [Prod.mk.injEq,decide_eq_false_iff_not] at hend
  refine ⟨s,tr,t,es,hr,hr',hend.1,?_⟩
  rcases accepted_exit_leaves hr hacc (by decide) hr' with ⟨_,hl⟩ | ⟨_,hc | hm⟩
  · simp [hend.1] at hl
  · exact hc
  · exact absurd hm hend.2

end Runs

end Ceclircd
