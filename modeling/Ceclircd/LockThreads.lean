import Ceclircd.LoopSteps
import Ceclircd.LockOrder
import Mathlib.Data.Fintype.Card
set_option autoImplicit false

/-! The threads of the daemon and its two mutexes. What a thread locks follows from
the events of its callback or pass: a push takes `libcec_sync`, a line `lirc_sync`. -/

namespace Ceclircd
open RunTrace LockOrder

inductive Mutex where
  | libcecSync
  | lircSync
  deriving DecidableEq, Repr

inductive Thread where
  | main
  | callback (n : Nat)
  | accept
  deriving DecidableEq, Repr

/-- The statements that raise signals or change their dispositions. -/
inductive Work where
  | writeClients
  | sigaction
  | signalReset
  deriving DecidableEq, Repr

def pushCode : List (Op Mutex Work) := [.lock .libcecSync,.unlock .libcecSync]

def processeventCode : List (Op Mutex Work) :=
  [.lock .lircSync,.work .writeClients,.unlock .lircSync]

def processnewclientCode : List (Op Mutex Work) := [.lock .lircSync,.unlock .lircSync]

/-- The call behind an event, by the mutex it takes. -/
def Event.code : Event → List (Op Mutex Work)
  | .accepted _ | .refused _ => pushCode
  | .line _ => processeventCode
  | _ => []

inductive Job where
  | openSession
  | pass (m : Main) (restart : Bool)
  | closeSession
  | callback (m : Main) (c : Callback)
  | processnewclient

/-- `pthread_cond_timedwait` releases `libcec_sync` and takes it again. -/
def Job.code : Job → List (Op Mutex Work)
  | .openSession => [.work .sigaction]
  | .pass m restart =>
      .lock .libcecSync :: (((m.commandPass restart).2.map Event.code).flatten ++
        [.unlock .libcecSync,.lock .libcecSync,.unlock .libcecSync])
  | .closeSession => [.work .signalReset]
  | .callback m c => ((m.callback c).2.map Event.code).flatten
  | .processnewclient => processnewclientCode

structure Threads where
  locks : Machine Thread Mutex Work
  installed : Signal → Bool
  inSession : Bool
  onStandbyCommand : String

inductive ThreadAction where
  | advance (t : Thread)
  | write (t : Thread) (closed : Bool)
  | start (t : Thread) (job : Job)
  | signal (t : Thread) (sigNum : Signal)

namespace Threads

def initial (onStandbyCommand : String) : Threads where
  locks := ⟨fun _ => none,fun _ => []⟩
  installed := fun _ => false
  inSession := false
  onStandbyCommand := onStandbyCommand

def mayStart (s : Threads) : Thread → Job → Bool
  | .main, .openSession => !s.inSession
  | .main, .pass m _ => s.inSession && m.onStandbyCommand == s.onStandbyCommand
  | .main, .closeSession => s.inSession
  | .callback _, .callback _ _ => true
  | .accept, .processnewclient => true
  | _, _ => false

def sessionAfter (s : Threads) : Job → Bool
  | .openSession => true
  | .closeSession => false
  | .pass _ _ | .callback _ _ | .processnewclient => s.inSession

def handle (s : Threads) (t : Thread) (sigNum : Signal) : Threads :=
  { s with locks := s.locks.prepend t pushCode,
           installed := fun n => if n = sigNum then false else s.installed n }

/-- Signals are only taken while their handler is installed; else the process ends.
SIGPIPE comes from a write of the first loop of `processevent`. -/
def step (s : Threads) : ThreadAction → Option (Threads × List Empty)
  | .advance t =>
      match s.locks.advance t with
      | none => none
      | some (locks,some .sigaction) =>
          some ({ s with locks := locks, installed := fun _ => true },[])
      | some (locks,some .signalReset) =>
          some ({ s with locks := locks, installed := fun _ => false },[])
      | some (locks,some .writeClients) => some ({ s with locks := locks },[])
      | some (locks,none) => some ({ s with locks := locks },[])
  | .write t closed =>
      match s.locks.todo t with
      | .work .writeClients :: _ =>
          if closed then
            if s.installed .pipe then some (s.handle t .pipe,[]) else none
          else some (s,[])
      | _ => none
  | .start t job =>
      if (s.locks.todo t).isEmpty && s.mayStart t job then
        some ({ s with locks := s.locks.prepend t job.code, inSession := s.sessionAfter job },[])
      else none
  | .signal t sigNum =>
      if sigNum ≠ .pipe ∧ s.installed sigNum = true then some (s.handle t sigNum,[]) else none

end Threads

namespace Main

theorem runCommand_code (command : String) : ∀ e ∈ runCommand command, e.code = [] := by
  unfold runCommand
  split <;> simp [Event.code]

theorem onCecKeyPress_code (m : Main) (key : Keypress) :
    ∀ e ∈ (m.onCecKeyPress key).2, e.code = processeventCode := by
  by_cases h : acceptsKey key
  · rw [onCecKeyPress_accepts m h]
    intro e he
    obtain ⟨_,_,rfl⟩ := List.mem_map.mp he
    rfl
  · rw [onCecKeyPress_ignores m h]
    simp

theorem dispatch_code (m : Main) (restart : Bool) (cmd : Command) :
    (∀ e ∈ (m.dispatch restart cmd).2,
        e.code = [] ∨ (e.code = processeventCode ∧ m.onStandbyCommand = "")) ∧
      (m.dispatch restart cmd).1.1.onStandbyCommand = m.onStandbyCommand := by
  cases cmd with
  | standby =>
    simp only [dispatch]
    by_cases hs : m.onStandbyCommand = ""
    · rw [if_neg (by simp [hs])]
      exact ⟨fun e he => .inr ⟨onCecKeyPress_code m ⟨UserControlCode.power,0⟩ e he,hs⟩,
        (onCecKeyPress_passive m ⟨UserControlCode.power,0⟩).standby⟩
    · rw [if_pos hs]
      exact ⟨fun e he => .inl (runCommand_code _ e he),rfl⟩
  | active | inactive => exact ⟨fun e he => .inl (runCommand_code _ e he),rfl⟩
  | restart | exit => exact ⟨by simp [dispatch],rfl⟩

/-- A pass writes lines only for STANDBY, and only with no standby command set. -/
theorem drain_code (cmds : List Command) (m : Main) (restart : Bool) :
    ∀ e ∈ (drain cmds m restart).2,
      e.code = [] ∨ (e.code = processeventCode ∧ m.onStandbyCommand = "") := by
  induction cmds generalizing m restart with
  | nil => simp [drain]
  | cons cmd rest ih =>
    cases hrun : m.running with
    | false => simp [drain_stopped _ m restart hrun]
    | true =>
      obtain ⟨hdisp,hstd⟩ := dispatch_code m restart cmd
      intro e he
      simp only [drain,hrun,if_true,List.cons_append,List.mem_cons,List.mem_append] at he
      rcases he with rfl | he | he
      · exact .inl rfl
      · exact hdisp e he
      · have hi := ih { (m.dispatch restart cmd).1.1 with commands := rest }
          (m.dispatch restart cmd).1.2 e he
        rw [← hstd]
        exact hi

end Main

/-- STANDBY with no command writes under `libcec_sync`; otherwise only the SIGPIPE
handler nests the two, the other way round. -/
def lockRank (onStandbyCommand : String) : Mutex → Bool
  | .libcecSync => onStandbyCommand != ""
  | .lircSync => onStandbyCommand == ""

theorem disciplined_push {std : String} {H : Set Mutex} {ops : List (Op Mutex Work)}
    (hlibcec : .libcecSync ∉ H) (hlirc : std = "" → .lircSync ∉ H)
    (h : Disciplined (lockRank std) H ops) : Disciplined (lockRank std) H (pushCode ++ ops) := by
  refine @Disciplined.bracket Mutex Work Bool _ (lockRank std) H ops .libcecSync ?_ [] h
  intro m hm
  cases m with
  | libcecSync => exact absurd hm hlibcec
  | lircSync =>
    have hstd : (std == "") = false := beq_eq_false_iff_ne.mpr fun he => hlirc he hm
    simp [lockRank,bne,hstd]

theorem disciplined_processevent {std : String} {H : Set Mutex} {ops : List (Op Mutex Work)}
    (hlirc : .lircSync ∉ H) (hlibcec : .libcecSync ∈ H → std = "")
    (h : Disciplined (lockRank std) H ops) :
    Disciplined (lockRank std) H (processeventCode ++ ops) := by
  refine @Disciplined.bracket Mutex Work Bool _ (lockRank std) H ops .lircSync ?_
    [.writeClients] h
  intro m hm
  cases m with
  | lircSync => exact absurd hm hlirc
  | libcecSync => simp [lockRank,hlibcec hm]

theorem disciplined_pass (m : Main) (restart : Bool) :
    Disciplined (lockRank m.onStandbyCommand) ∅ (Job.pass m restart).code := by
  refine ⟨by simp,Disciplined.append_left ?_ ?_⟩
  · intro block hb ops h
    obtain ⟨e,he,rfl⟩ := List.mem_map.mp hb
    rcases m.drain_code m.commands restart e he with hc | ⟨hc,hs⟩
    · rw [hc]
      exact h
    · rw [hc]
      exact disciplined_processevent (by simp) (fun _ => hs) h
  · refine ⟨by simp,?_⟩
    refine @Disciplined.bracket Mutex Work Bool _ _ _ [] .libcecSync (by simp) [] ?_
    simp [Disciplined]

theorem disciplined_callback (std : String) (m : Main) (c : Callback) :
    Disciplined (lockRank std) ∅ (Job.callback m c).code := by
  have h := @Disciplined.append_left Mutex Work Bool _ (lockRank std) ∅ []
    ((m.callback c).2.map Event.code) ?_ rfl
  · simpa [Job.code] using h
  · intro block hb ops h
    obtain ⟨e,_,rfl⟩ := List.mem_map.mp hb
    cases e with
    | accepted | refused => exact disciplined_push (by simp) (by simp) h
    | line => exact disciplined_processevent (by simp) (by simp) h
    | _ => exact h

def Threads.Ordered (s : Threads) : Prop :=
  AllDisciplined (lockRank s.onStandbyCommand) s.locks

theorem Threads.start_ordered {s : Threads} {t : Thread} {job : Job} (h : s.Ordered)
    (hidle : s.locks.todo t = []) (hmay : s.mayStart t job = true) :
    AllDisciplined (lockRank s.onStandbyCommand) (s.locks.prepend t job.code) := by
  have hheld := h t
  rw [hidle] at hheld
  refine AllDisciplined.prepend h ?_
  have hempty : s.locks.held t = ∅ := hheld
  rw [hempty,hidle,List.append_nil]
  cases job with
  | openSession | closeSession => rfl
  | pass m restart =>
    have hstd : m.onStandbyCommand = s.onStandbyCommand := by
      cases t <;> simp_all [mayStart]
    rw [← hstd]
    exact disciplined_pass m restart
  | callback m c => exact disciplined_callback _ m c
  | processnewclient =>
    exact @Disciplined.bracket Mutex Work Bool _ _ _ [] .lircSync (by simp) [] rfl

/-- The handler does not run on a thread that holds `libcec_sync`, nor, if STANDBY
writes under `libcec_sync`, on one that holds `lirc_sync`. -/
def SignalClear (s : Threads) : ThreadAction → Prop
  | .signal t _ | .write t true => s.locks.owner .libcecSync ≠ some t ∧
      (s.onStandbyCommand = "" → s.locks.owner .lircSync ≠ some t)
  | .write _ false | .advance _ | .start _ _ => True

instance (s : Threads) (a : ThreadAction) : Decidable (SignalClear s a) :=
  match a with
  | .signal t _ => inferInstanceAs (Decidable (s.locks.owner .libcecSync ≠ some t ∧
      (s.onStandbyCommand = "" → s.locks.owner .lircSync ≠ some t)))
  | .write t closed =>
      match closed with
      | true => inferInstanceAs (Decidable (s.locks.owner .libcecSync ≠ some t ∧
          (s.onStandbyCommand = "" → s.locks.owner .lircSync ≠ some t)))
      | false => .isTrue trivial
  | .advance _ | .start _ _ => .isTrue trivial

theorem Threads.handle_ordered {s : Threads} {t : Thread} (sigNum : Signal) (h : s.Ordered)
    (hlibcec : s.locks.owner .libcecSync ≠ some t)
    (hlirc : s.onStandbyCommand = "" → s.locks.owner .lircSync ≠ some t) :
    (s.handle t sigNum).Ordered :=
  AllDisciplined.prepend h (disciplined_push hlibcec hlirc (h t))

/-- On a thread that holds `libcec_sync` the handler waits for its own thread. -/
theorem Threads.handle_deadlocked {s : Threads} {t : Thread} (sigNum : Signal)
    (h : s.locks.owner .libcecSync = some t) : (s.handle t sigNum).locks.Deadlocked {t} := by
  refine ⟨⟨t,rfl⟩,?_⟩
  rintro u rfl
  refine ⟨.libcecSync,u,?_,h,rfl⟩
  simp [handle,Machine.prepend,Machine.waitsFor,pushCode]

theorem Threads.step_ordered {s s' : Threads} {a : ThreadAction} {es : List Empty}
    (h : s.Ordered) (hc : SignalClear s a) (hs : s.step a = some (s',es)) : s'.Ordered := by
  cases a with
  | advance t =>
    simp only [step] at hs
    cases ha : s.locks.advance t with
    | none => simp [ha] at hs
    | some r =>
      obtain ⟨locks,w⟩ := r
      have hnext : AllDisciplined (lockRank s.onStandbyCommand) locks := h.advance ha
      rw [ha] at hs
      cases w with
      | none =>
        obtain ⟨rfl,_⟩ := Prod.mk.inj (Option.some.inj hs)
        exact hnext
      | some w =>
        cases w <;> obtain ⟨rfl,_⟩ := Prod.mk.inj (Option.some.inj hs) <;> exact hnext
  | write t closed =>
    simp only [step] at hs
    split at hs
    · cases closed with
      | false =>
        obtain ⟨rfl,_⟩ := Prod.mk.inj (Option.some.inj hs)
        exact h
      | true =>
        simp only [if_true] at hs
        split at hs
        · obtain ⟨rfl,_⟩ := Prod.mk.inj (Option.some.inj hs)
          exact s.handle_ordered .pipe h hc.1 hc.2
        · simp at hs
    · simp at hs
  | start t job =>
    simp only [step] at hs
    split at hs
    · next hmay =>
      simp only [Bool.and_eq_true,List.isEmpty_iff] at hmay
      obtain ⟨rfl,_⟩ := Prod.mk.inj (Option.some.inj hs)
      exact s.start_ordered h hmay.1 hmay.2
    · simp at hs
  | signal t sigNum =>
    simp only [step] at hs
    split at hs
    · obtain ⟨rfl,_⟩ := Prod.mk.inj (Option.some.inj hs)
      exact s.handle_ordered sigNum h hc.1 hc.2
    · simp at hs

theorem Threads.initial_ordered (std : String) : (initial std).Ordered := by
  intro t
  have h : (initial std).locks.held t = ∅ := by
    ext m
    simp [initial,Machine.held]
  exact h

/-- With the handler kept off threads that hold a mutex it must not nest with, no
interleaving of the threads gets into a deadlock. -/
theorem threads_not_deadlocked {std : String} {as : List ThreadAction} {s : Threads}
    {tr : List Empty} (hr : run Threads.step (.initial std) as = some (s,tr))
    (hg : EveryStep Threads.step SignalClear (.initial std) as) (S : Set Thread) :
    ¬ s.locks.Deadlocked S := by
  have h : s.Ordered := invariant_of_everyStep (I := fun s _ => Threads.Ordered s)
    (fun s tr a t es hI hga hs => s.step_ordered hI hga hs) (Threads.initial_ordered std) hg hr
  exact AllDisciplined.not_deadlocked h S

def mainRunning (commands : List Command) : Main :=
  { Main.initial .none with running := true, commands := commands }

theorem threads_not_deadlocked_sigterm :
    ∃ s tr, run Threads.step (.initial "")
        [.start .main .openSession,.advance .main,.start .main (.pass (mainRunning []) false),
          .advance .main,.signal .accept .term] = some (s,tr) ∧
      s.locks.waitsFor .accept = some .libcecSync ∧
      s.locks.owner .libcecSync = some .main ∧ ∀ S, ¬ s.locks.Deadlocked S := by
  have h : (run Threads.step (.initial "")
        [.start .main .openSession,.advance .main,.start .main (.pass (mainRunning []) false),
          .advance .main,.signal .accept .term]).map
            (fun r => (r.1.locks.waitsFor .accept,r.1.locks.owner .libcecSync)) =
              some (some .libcecSync,some .main) := by decide
  obtain ⟨⟨s,tr⟩,hr,heq⟩ := Option.map_eq_some_iff.mp h
  simp only [Prod.mk.injEq] at heq
  exact ⟨s,tr,hr,heq.1,heq.2,
    threads_not_deadlocked hr (everyStep_of_check (by decide))⟩

/-- SIGINT on the loop's thread under `libcec_sync`: it waits for itself. And a client
that closed, written to by a callback while the loop handles a STANDBY: the two wait
for each other. -/
theorem threads_deadlocked :
    (∃ as s tr, run Threads.step (.initial "") as = some (s,tr) ∧
      s.locks.Deadlocked {.main}) ∧
    ∃ as s tr, run Threads.step (.initial "") as = some (s,tr) ∧
      s.locks.Deadlocked {.main,.callback 0} := by
  constructor
  · have h : (run Threads.step (.initial "")
          [.start .main .openSession,.advance .main,.start .main (.pass (mainRunning []) false),
            .advance .main,.signal .main .int]).map
              (fun r => (r.1.locks.waitsFor .main,r.1.locks.owner .libcecSync)) =
                some (some .libcecSync,some .main) := by decide
    obtain ⟨⟨s,tr⟩,hr,heq⟩ := Option.map_eq_some_iff.mp h
    simp only [Prod.mk.injEq] at heq
    refine ⟨_,s,tr,hr,⟨.main,rfl⟩,?_⟩
    rintro t rfl
    exact ⟨.libcecSync,.main,heq.1,heq.2,rfl⟩
  · have h : (run Threads.step (.initial "")
          [.start .main .openSession,.advance .main,
            .start (.callback 0) (.callback (mainRunning []) (.keyPress ⟨UserControlCode.up,0⟩)),
            .advance (.callback 0),.start .main (.pass (mainRunning [.standby]) false),
            .advance .main,.write (.callback 0) true]).map
              (fun r => (r.1.locks.waitsFor .main,r.1.locks.owner .lircSync,
                r.1.locks.waitsFor (.callback 0),r.1.locks.owner .libcecSync)) =
                some (some .lircSync,some (.callback 0),some .libcecSync,some .main) := by
      decide
    obtain ⟨⟨s,tr⟩,hr,heq⟩ := Option.map_eq_some_iff.mp h
    simp only [Prod.mk.injEq] at heq
    refine ⟨_,s,tr,hr,⟨.main,by simp⟩,?_⟩
    rintro t (rfl | rfl)
    · exact ⟨.lircSync,.callback 0,heq.1,heq.2.1,by simp⟩
    · exact ⟨.libcecSync,.main,heq.2.2.1,heq.2.2.2,by simp⟩

end Ceclircd
