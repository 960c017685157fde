import Ceclircd.LoopCleanup
set_option autoImplicit false

/-! What `lirc::Open` and `lirc::Close` do with the socket and the thread, over all the
calls of `Main` and the destructor's. -/

namespace Ceclircd
open RunTrace

structure LircHandle where
  sockfd : Int
  lirc_thread : Nat
  isRunning : Bool
  deriving DecidableEq, Repr

/-- `lirc_thread` has no initialiser. -/
def LircHandle.initial (junk : Nat) : LircHandle := ⟨-1,junk,false⟩

/-- The results of the system calls in one `Open`, and what `pthread_create` stores. -/
structure OpenOutcome where
  socket : Int
  bind : Int
  listen : Int
  pthreadCreate : Int
  thread : Nat
  deriving DecidableEq, Repr

inductive HandleEvent where
  | socket (fd : Int)
  | close (fd : Int)
  | create (thread : Nat)
  | join (thread : Nat)
  deriving DecidableEq, Repr

/-- `lirc::Open`; the text of the path and `unlink`, `chmod` are left out. -/
def LircHandle.openWith (h : LircHandle) (o : OpenOutcome) :
    (LircHandle × Bool) × List HandleEvent :=
  let h := { h with sockfd := o.socket }
  if h.sockfd < 0 then ((h,false),[])
  else if o.bind < 0 then ((h,false),[.socket o.socket])
  else if o.listen < 0 then ((h,false),[.socket o.socket])
  else
    let h := { h with lirc_thread := o.thread }
    if o.pthreadCreate ≠ 0 then ((h,false),[.socket o.socket])
    else (({ h with isRunning := true },true),[.socket o.socket,.create o.thread])

/-- `lirc::Close`, without the mutex; the destructor is this too. -/
def LircHandle.close (h : LircHandle) : LircHandle × List HandleEvent :=
  ({ h with isRunning := false },
    (if h.sockfd ≥ 0 then [.close h.sockfd] else []) ++ [.join h.lirc_thread])

inductive LircCall where
  | openWith (o : OpenOutcome)
  | close
  deriving DecidableEq, Repr

def LircHandle.call (h : LircHandle) : LircCall → LircHandle × List HandleEvent
  | .openWith o => ((h.openWith o).1.1,(h.openWith o).2)
  | .close => h.close

def LircHandle.calls (h : LircHandle) : List LircCall → LircHandle × List HandleEvent
  | [] => (h,[])
  | call :: cs =>
      let (h,es) := h.call call
      let (h,fs) := h.calls cs
      (h,es ++ fs)

structure Ledger where
  fds : List Int
  threads : List Nat
  deriving DecidableEq, Repr

/-- `none` where a call is made on what is not owned. -/
def Ledger.record (l : Ledger) : HandleEvent → Option Ledger
  | .socket fd => some { l with fds := fd :: l.fds }
  | .close fd => if fd ∈ l.fds then some { l with fds := l.fds.erase fd } else none
  | .create t => some { l with threads := t :: l.threads }
  | .join t => if t ∈ l.threads then some { l with threads := l.threads.erase t } else none

def Settled (es : List HandleEvent) : Prop := es.foldlM Ledger.record ⟨[],[]⟩ = some ⟨[],[]⟩

instance (es : List HandleEvent) : Decidable (Settled es) :=
  inferInstanceAs (Decidable (_ = _))

def OpenOutcome.succeeds (o : OpenOutcome) : Bool :=
  0 ≤ o.socket ∧ 0 ≤ o.bind ∧ 0 ≤ o.listen ∧ o.pthreadCreate = 0

def LircCall.event : LircCall → Event
  | .openWith o => .lircOpen o.succeeds
  | .close => .lircClose

def Event.ofLirc : Event → Bool
  | .lircOpen _ | .lircClose => true
  | _ => false

inductive Standing where
  | closed
  | opened
  | failed
  deriving DecidableEq, Repr

inductive CallsTo : Standing → List LircCall → Prop where
  | nil : CallsTo .closed []
  | opened {cs : List LircCall} {o : OpenOutcome} (h : CallsTo .closed cs)
      (ho : o.succeeds = true) : CallsTo .opened (cs ++ [.openWith o])
  | failed {cs : List LircCall} {o : OpenOutcome} (h : CallsTo .closed cs)
      (ho : o.succeeds = false) : CallsTo .failed (cs ++ [.openWith o])
  | closed {cs : List LircCall} (h : CallsTo .opened cs) : CallsTo .closed (cs ++ [.close])

theorem LircHandle.calls_append (h : LircHandle) (cs ds : List LircCall) :
    h.calls (cs ++ ds) = (((h.calls cs).1.calls ds).1,(h.calls cs).2 ++ ((h.calls cs).1.calls ds).2) := by
  induction cs generalizing h with
  | nil => rfl
  | cons c cs ih => simp [calls,ih]

theorem LircHandle.calls_singleton (h : LircHandle) (c : LircCall) : h.calls [c] = h.call c := by
  simp [calls]

theorem LircHandle.openWith_succeeds (h : LircHandle) {o : OpenOutcome}
    (ho : o.succeeds = true) : h.openWith o =
      ((⟨o.socket,o.thread,true⟩,true),[.socket o.socket,.create o.thread]) := by
  simp only [OpenOutcome.succeeds,decide_eq_true_eq] at ho
  obtain ⟨hs,hb,hl,hc⟩ := ho
  simp only [openWith]
  rw [if_neg (by omega),if_neg (by omega),if_neg (by omega),if_neg (by omega)]

theorem LircHandle.openWith_fails (h : LircHandle) {o : OpenOutcome}
    (ho : o.succeeds = false) : (h.openWith o).1.2 = false ∧
      ((h.openWith o).2 = [] ∨ (h.openWith o).2 = [.socket o.socket]) := by
  simp only [openWith]
  split
  · exact ⟨rfl,.inl rfl⟩
  · split
    · exact ⟨rfl,.inr rfl⟩
    · split
      · exact ⟨rfl,.inr rfl⟩
      · split
        · exact ⟨rfl,.inr rfl⟩
        · simp only [OpenOutcome.succeeds,decide_eq_false_iff_not] at ho
          omega

def Owns : Standing → LircHandle → Ledger → Prop
  | .closed, _, l => l = ⟨[],[]⟩
  | .opened, h, l => 0 ≤ h.sockfd ∧ l = ⟨[h.sockfd],[h.lirc_thread]⟩
  | .failed, _, l => l.threads = []

theorem close_opened {h : LircHandle} {l : Ledger} (hl : Owns .opened h l) :
    h.close.2.foldlM Ledger.record l = some ⟨[],[]⟩ := by
  obtain ⟨hfd,rfl⟩ := hl
  simp [LircHandle.close,hfd,Ledger.record]

theorem close_threadless {h : LircHandle} {l : Ledger} (hl : l.threads = []) :
    h.close.2.foldlM Ledger.record l = none := by
  obtain ⟨fds,threads⟩ := l
  dsimp only at hl
  subst hl
  by_cases hfd : h.sockfd ≥ 0
  · by_cases hmem : h.sockfd ∈ fds
    · simp [LircHandle.close,hfd,Ledger.record,hmem]
    · simp [LircHandle.close,hfd,Ledger.record,hmem]
  · simp [LircHandle.close,hfd,Ledger.record]

theorem calls_owns {st : Standing} {cs : List LircCall} (h : CallsTo st cs) (junk : Nat) :
    ∃ l, ((LircHandle.initial junk).calls cs).2.foldlM Ledger.record ⟨[],[]⟩ = some l ∧
      Owns st ((LircHandle.initial junk).calls cs).1 l := by
  induction h with
  | nil => exact ⟨⟨[],[]⟩,rfl,rfl⟩
  | @opened cs o _ ho ih =>
    obtain ⟨l,hfold,rfl⟩ := ih
    have hpos : 0 ≤ o.socket := by
      simp only [OpenOutcome.succeeds,decide_eq_true_eq] at ho
      exact ho.1
    rw [LircHandle.calls_append,LircHandle.calls_singleton,LircHandle.call,
      LircHandle.openWith_succeeds _ ho]
    refine ⟨⟨[o.socket],[o.thread]⟩,?_,hpos,rfl⟩
    rw [List.foldlM_append,hfold]
    rfl
  | @failed cs o _ ho ih =>
    obtain ⟨l,hfold,rfl⟩ := ih
    rw [LircHandle.calls_append,LircHandle.calls_singleton,LircHandle.call]
    rcases (LircHandle.openWith_fails ((LircHandle.initial junk).calls cs).1 ho).2 with he | he
    · refine ⟨⟨[],[]⟩,?_,rfl⟩
      rw [he,List.append_nil,hfold]
    · refine ⟨⟨[o.socket],[]⟩,?_,rfl⟩
      rw [he,List.foldlM_append,hfold]
      rfl
  | @closed cs _ ih =>
    obtain ⟨l,hfold,hown⟩ := ih
    rw [LircHandle.calls_append,LircHandle.calls_singleton]
    refine ⟨⟨[],[]⟩,?_,rfl⟩
    rw [List.foldlM_append,hfold]
    exact close_opened hown

theorem settled_iff_opened {st : Standing} {cs : List LircCall} (h : CallsTo st cs)
    (junk : Nat) : Settled ((LircHandle.initial junk).calls (cs ++ [.close])).2 ↔
      st = .opened := by
  obtain ⟨l,hfold,hown⟩ := calls_owns h junk
  have hclose : ((LircHandle.initial junk).calls (cs ++ [.close])).2.foldlM Ledger.record ⟨[],[]⟩ =
      ((LircHandle.initial junk).calls cs).1.close.2.foldlM Ledger.record l := by
    rw [LircHandle.calls_append,LircHandle.calls_singleton,List.foldlM_append,hfold]
    rfl
  rw [Settled,hclose]
  cases st with
  | opened => exact ⟨fun _ => rfl,fun _ => close_opened hown⟩
  | closed =>
    have hnone := close_threadless (h := ((LircHandle.initial junk).calls cs).1)
      (show l.threads = [] by rw [show l = ⟨[],[]⟩ from hown])
    simp [hnone]
  | failed =>
    have hnone := close_threadless (h := ((LircHandle.initial junk).calls cs).1) hown
    simp [hnone]

/-! The calls that runs of the loop make. -/

theorem ofLirc_filter {es : List Event} {cs : List Command}
    (h : loopEvents es = cs.map .processed) : es.filter Event.ofLirc = [] := by
  have hsub : es.filter Event.ofLirc = (loopEvents es).filter Event.ofLirc := by
    rw [loopEvents,List.filter_filter]
    refine List.filter_congr fun e _ => ?_
    cases e <;> rfl
  rw [hsub,h]
  simp [Event.ofLirc]

def Pc.stands (pc : Pc) (st : Standing) (tr : List Event) : Prop :=
  match pc with
  | .cecOpen | .lircOpen | .whileRestart => st = .closed ∧ .makeActive false ∉ tr
  | .returned => st ≠ .opened ∧ .makeActive false ∉ tr
  | .threw => st = .opened ↔ .makeActive false ∈ tr
  | _ => st = .opened ∧ .makeActive false ∉ tr

def CallsOf (tr : List Event) (cs : List LircCall) : Prop :=
  cs.map LircCall.event = tr.filter Event.ofLirc

theorem CallsOf.split {tr es : List Event} {cs : List LircCall} (h : CallsOf (tr ++ es) cs) :
    ∃ cs₀ ds, cs = cs₀ ++ ds ∧ CallsOf tr cs₀ ∧ CallsOf es ds := by
  rw [CallsOf,List.filter_append,List.map_eq_append_iff] at h
  obtain ⟨cs₀,ds,hcs,h₀,h₁⟩ := h
  exact ⟨cs₀,ds,hcs,h₀,h₁⟩

def Stands (s : System) (tr : List Event) : Prop :=
  ∀ cs, CallsOf tr cs → ∃ st, CallsTo st cs ∧ s.pc.stands st tr

theorem Stands.quiet {s t : System} {tr es : List Event} (h : Stands s tr)
    (hes : es.filter Event.ofLirc = [])
    (hpc : ∀ st, s.pc.stands st tr → t.pc.stands st (tr ++ es)) : Stands t (tr ++ es) := by
  intro cs hcs
  rw [CallsOf,List.filter_append,hes,List.append_nil] at hcs
  obtain ⟨st,hst,hstands⟩ := h cs hcs
  exact ⟨st,hst,hpc st hstands⟩

theorem Stands.call {s t : System} {tr es : List Event} {e : Event} (h : Stands s tr)
    (hes : es.filter Event.ofLirc = [e])
    (hcall : ∀ cs call st, CallsTo st cs → s.pc.stands st tr → LircCall.event call = e →
      ∃ st', CallsTo st' (cs ++ [call]) ∧ t.pc.stands st' (tr ++ es)) : Stands t (tr ++ es) := by
  intro cs hcs
  obtain ⟨cs₀,ds,rfl,h₀,h₁⟩ := hcs.split
  rw [CallsOf,hes,List.map_eq_singleton_iff] at h₁
  obtain ⟨call,rfl,he⟩ := h₁
  obtain ⟨st,hst,hstands⟩ := h cs₀ h₀
  exact hcall cs₀ call st hst hstands he

theorem LircCall.eq_openWith {call : LircCall} {b : Bool} (h : call.event = .lircOpen b) :
    ∃ o, call = .openWith o ∧ o.succeeds = b := by
  cases call with
  | openWith o => exact ⟨o,rfl,Event.lircOpen.inj h⟩
  | close => simp [event] at h

theorem LircCall.eq_close {call : LircCall} (h : call.event = .lircClose) : call = .close := by
  cases call with
  | openWith o => simp [event] at h
  | close => rfl

theorem Stands.move {s t : System} {tr es : List Event} (h : Stands s tr)
    (hm : LoopMove s t es) : Stands t (tr ++ es) := by
  cases hm with
  | lircOpened hp =>
    refine h.call (e := .lircOpen true) rfl fun cs call st hst hstands he => ?_
    obtain ⟨o,rfl,ho⟩ := LircCall.eq_openWith he
    rw [hp] at hstands
    obtain ⟨rfl,hactive⟩ := hstands
    exact ⟨.opened,hst.opened ho,rfl,by simp [hactive]⟩
  | lircFailed hp =>
    refine h.call (e := .lircOpen false) rfl fun cs call st hst hstands he => ?_
    obtain ⟨o,rfl,ho⟩ := LircCall.eq_openWith he
    rw [hp] at hstands
    obtain ⟨rfl,hactive⟩ := hstands
    exact ⟨.failed,hst.failed ho,by simp,by simp [hactive]⟩
  | lircClosed hp =>
    refine h.call (e := .lircClose) rfl fun cs call st hst hstands he => ?_
    obtain rfl := LircCall.eq_close he
    rw [hp] at hstands
    obtain ⟨rfl,hactive⟩ := hstands
    exact ⟨.closed,hst.closed,rfl,by simp [hactive]⟩
  | activateThrew hp ha =>
    refine h.quiet rfl fun st hst => ?_
    rw [hp] at hst
    simp [Pc.stands,hst.1]
  | openThrew hp =>
    refine h.quiet rfl fun st hst => ?_
    rw [hp] at hst
    simp [Pc.stands,hst.1,hst.2]
  | passed hp m restart es hd =>
    have hactive : .makeActive false ∉ es := by
      intro hmem
      have hle := mem_loopEvents hmem rfl
      simp [hd.loopEvents_eq] at hle
    refine h.quiet (ofLirc_filter hd.loopEvents_eq) fun st hst => ?_
    rw [hp] at hst
    exact ⟨hst.1,by simp [hst.2,hactive]⟩
  | returned hp _ =>
    refine h.quiet rfl fun st hst => ?_
    rw [hp] at hst
    exact ⟨by simp [hst.1],by simp [hst.2]⟩
  | opened hp | started hp | installed hp | activated hp _ | notActivated hp _ | again hp _
  | left hp _ | signalsReset hp | cecClosed hp | reopened hp _ =>
    refine h.quiet rfl fun st hst => ?_
    rw [hp] at hst
    exact ⟨hst.1,by simp [hst.2]⟩

theorem Stands.aside {s t : System} {tr es : List Event} (h : Stands s tr)
    (ha : s.Aside t es) : Stands t (tr ++ es) := by
  have hactive : .makeActive false ∉ es := by
    intro hmem
    have hle := mem_loopEvents hmem rfl
    simp [ha.main.quiet] at hle
  refine h.quiet (@ofLirc_filter es [] ha.main.quiet) fun st hst => ?_
  rw [ha.pc]
  unfold Pc.stands at hst ⊢
  simpa [hactive] using hst

theorem run_stands {c : Settings} {as : List Action} {s : System} {tr : List Event}
    (hr : run System.step (.initial c) as = some (s,tr)) : Stands s tr := by
  refine invariant (I := Stands) ?_ ?_ hr
  · intro s tr a t es h hs
    rcases System.step_move_or_aside hs with hm | ha
    · exact h.move hm
    · exact h.aside ha
  · intro cs hcs
    obtain rfl : cs = [] := List.map_eq_nil_iff.mp hcs
    exact ⟨.closed,.nil,rfl,by simp⟩

/-- Whatever the calls of the process were, with no `loop` at all or one that was left, the
destructor leaves the ledger settled exactly when `cec.makeActive` threw: then the last
`Open` had no `Close`. -/
theorem handles_settled_iff {c : Settings} {as : List Action} {s : System} {tr : List Event}
    (hr : run System.step (.initial c) as = some (s,tr)) (hleft : as = [] ∨ s.pc.left = true)
    {cs : List LircCall} (hcs : CallsOf tr cs) (junk : Nat) :
    Settled ((LircHandle.initial junk).calls (cs ++ [.close])).2 ↔ .makeActive false ∈ tr := by
  obtain ⟨st,hst,hstands⟩ := run_stands hr cs hcs
  rw [settled_iff_opened hst]
  rcases hleft with rfl | hleft
  · obtain ⟨rfl,rfl⟩ := Prod.mk.inj (Option.some.inj hr)
    simp [hstands.1]
  · cases hp : s.pc with
    | returned =>
      rw [hp] at hstands
      simp [hstands.1,hstands.2]
    | threw =>
      rw [hp] at hstands
      exact hstands
    | _ => simp [hp,Pc.left] at hleft

theorem handles_settled_iff_second_session :
    ∃ s tr, run System.step (.initial .none)
        [.loop true,.loop true,.loop true,.loop true,.loop true,.callback .restart,
          .loop true,.loop true,.loop true,.loop true,.loop true,.loop true,
          .loop true,.loop true,.loop true,.loop true,.loop false] = some (s,tr) ∧
      Settled ((LircHandle.initial 0).calls ([.openWith ⟨7,0,0,0,1⟩,.close,
          .openWith ⟨7,0,0,0,2⟩] ++ [.close])).2 := by
  have h : (run System.step (.initial .none)
        [.loop true,.loop true,.loop true,.loop true,.loop true,.callback .restart,
          .loop true,.loop true,.loop true,.loop true,.loop true,.loop true,
          .loop true,.loop true,.loop true,.loop true,.loop false]).map
            (fun r => (r.1.pc.left,r.2.filter Event.ofLirc,decide (.makeActive false ∈ r.2))) =
              some (true,[.lircOpen true,.lircClose,.lircOpen true],true) := by decide
  obtain ⟨⟨s,tr⟩,hr,heq⟩ := Option.map_eq_some_iff.mp h
  simp only [Prod.mk.injEq,decide_eq_true_eq] at heq
  obtain ⟨hleft,hcalls,hthrew⟩ := heq
  exact ⟨s,tr,hr,(handles_settled_iff hr (.inr hleft) (by rw [CallsOf,hcalls]; rfl) 0).mpr hthrew⟩

/-- One session that is left by EXIT: the destructor closes descriptor 7 and joins thread 1
a second time. -/
theorem close_twice_not_settled :
    ∃ as s tr cs, run System.step (.initial .none) as = some (s,tr) ∧ s.pc = .returned ∧
      CallsOf tr cs ∧ ((LircHandle.initial 0).calls (cs ++ [.close])).2 =
        [.socket 7,.create 1,.close 7,.join 1,.close 7,.join 1] ∧
      ¬ Settled ((LircHandle.initial 0).calls (cs ++ [.close])).2 := by
  have h : (run System.step (.initial .none)
        [.loop true,.loop true,.loop true,.loop true,.loop true,.callback .stop,
          .loop true,.loop true,.loop true,.loop true,.loop true,.loop true]).map
            (fun r => (r.1.pc,r.2.filter Event.ofLirc)) =
              some (.returned,[.lircOpen true,.lircClose]) := by decide
  obtain ⟨⟨s,tr⟩,hr,heq⟩ := Option.map_eq_some_iff.mp h
  simp only [Prod.mk.injEq] at heq
  exact ⟨_,s,tr,[.openWith ⟨7,0,0,0,1⟩,.close],hr,heq.1,by rw [CallsOf,heq.2]; rfl,by decide,
    by decide⟩

end Ceclircd
