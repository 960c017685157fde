import Ceclircd.LoopSteps
set_option autoImplicit false

/-! The signal handlers over all sessions: which signals the process survives, and what
those do. -/

namespace Ceclircd
open RunTrace

/-- `sigaction` was called, and since then neither `signal` nor a handler for this number. -/
def Armed (c : Settings) (sigNum : Signal) : List Action → System → Prop :=
  Since System.step (fun _ _ es => .sigaction ∈ es)
    (fun _ a es => a ≠ .signal sigNum ∧ .signalReset ∉ es) (.initial c)

theorem LoopMove.disposition {s t : System} {es : List Event} (h : LoopMove s t es) :
    (.sigaction ∈ es ∧ t.disposition = fun _ => .signalHandler) ∨
      (.signalReset ∈ es ∧ .sigaction ∉ es ∧ t.disposition = fun _ => .default) ∨
      (.signalReset ∉ es ∧ .sigaction ∉ es ∧ t.disposition = s.disposition) := by
  cases h with
  | installed => exact .inl ⟨by simp,rfl⟩
  | signalsReset | lircFailed => exact .inr (.inl ⟨by simp,by simp,rfl⟩)
  | passed hp m restart es hd =>
    exact .inr (.inr ⟨hd.quiet rfl (by simp),hd.quiet rfl (by simp),rfl⟩)
  | _ => exact .inr (.inr ⟨by simp,by simp,rfl⟩)

namespace System

theorem deliver_disposition_of_ne (s : System) {sigNum n : Signal} (h : n ≠ sigNum) :
    (s.deliver sigNum).1.disposition n = s.disposition n := by
  unfold deliver
  split
  · rfl
  · exact if_neg h

theorem deliver_disposition_self (s : System) (sigNum : Signal) :
    (s.deliver sigNum).1.disposition sigNum = .default := by
  unfold deliver
  split
  · next h => exact h
  · exact if_pos rfl

theorem step_disposition {s t : System} {a : Action} {es : List Event}
    (h : s.step a = some (t,es)) (sigNum : Signal) :
    (.sigaction ∈ es ∧ t.disposition sigNum = .signalHandler) ∨
      (.sigaction ∉ es ∧ (.signalReset ∈ es ∨ a = .signal sigNum) ∧
        t.disposition sigNum = .default) ∨
      (.sigaction ∉ es ∧ a ≠ .signal sigNum ∧ .signalReset ∉ es ∧
        t.disposition sigNum = s.disposition sigNum) := by
  by_cases hl : ∃ ok, a = .loop ok
  · obtain ⟨ok,rfl⟩ := hl
    rcases (step_loop h).disposition with ⟨hin,hd⟩ | ⟨hreset,hout,hd⟩ | ⟨hreset,hout,hd⟩
    · exact .inl ⟨hin,by rw [hd]⟩
    · exact .inr (.inl ⟨hout,.inl hreset,by rw [hd]⟩)
    · exact .inr (.inr ⟨hout,by simp,hreset,by rw [hd]⟩)
  · have haside := step_aside h fun ok ha => hl ⟨ok,ha⟩
    have hout : .sigaction ∉ es := haside.quiet rfl
    have hreset : .signalReset ∉ es := haside.quiet rfl
    rcases (step_cases h).2 with ⟨ok,ha,_⟩ | ⟨cb,rfl,rfl,_⟩ | ⟨n,rfl,hd⟩
    · exact absurd ⟨ok,ha⟩ hl
    · exact .inr (.inr ⟨hout,by simp,hreset,rfl⟩)
    · obtain rfl : t = (s.deliver n).1 := congrArg Prod.fst hd
      by_cases hn : sigNum = n
      · subst hn
        exact .inr (.inl ⟨hout,.inr rfl,s.deliver_disposition_self sigNum⟩)
      · exact .inr (.inr ⟨hout,by simpa using Ne.symm hn,hreset,s.deliver_disposition_of_ne hn⟩)

theorem deliver_killed {s : System} {sigNum : Signal} (h : s.disposition sigNum = .default) :
    s.deliver sigNum = ({ s with killed := true },[]) := by
  rw [deliver,h]

theorem deliver_handled {s : System} {sigNum : Signal}
    (h : s.disposition sigNum = .signalHandler) :
    (s.deliver sigNum).1.main = (s.main.push sigNum.command).1 ∧
      (s.deliver sigNum).2 = (s.main.push sigNum.command).2 ∧
      (s.deliver sigNum).1.killed = s.killed := by
  rw [deliver,h,signalHandler_eq]
  exact ⟨rfl,rfl,rfl⟩

end System

section Runs

variable {c : Settings} {as : List Action} {s : System} {tr : List Event}

theorem handler_iff_armed (hr : run System.step (.initial c) as = some (s,tr)) (sigNum : Signal) :
    s.disposition sigNum = .signalHandler ↔ Armed c sigNum as s := by
  refine @flag_iff_since _ _ _ _ _ _ (fun s => s.disposition sigNum = .signalHandler) _
    (by simp [System.initial]) ?_ ?_ ?_ as s tr hr
  · intro s a t es hs hin
    rcases System.step_disposition hs sigNum with ⟨_,hd⟩ | ⟨hout,_⟩ | ⟨hout,_⟩
    · exact hd
    · exact absurd hin hout
    · exact absurd hin hout
  · intro s a t es hs hkeep hd
    rcases System.step_disposition hs sigNum with ⟨_,ht⟩ | ⟨_,hreset | ha,_⟩ | ⟨_,_,_,ht⟩
    · exact ht
    · exact absurd hreset hkeep.2
    · exact absurd ha hkeep.1
    · rw [ht,hd]
  · intro s a t es hs hd
    rcases System.step_disposition hs sigNum with ⟨hin,_⟩ | ⟨_,_,ht⟩ | ⟨_,ha,hreset,ht⟩
    · exact .inl hin
    · simp [ht] at hd
    · exact .inr ⟨⟨ha,hreset⟩,ht ▸ hd⟩

/-- In every run a signal is survived if and only if it comes after a `sigaction` of the loop,
before the next reset, and is the first with its number since; then it is a push of RESTART
or EXIT, and otherwise the end of the process. The handlers of the other signals stay. -/
theorem signal_survived_iff (hr : run System.step (.initial c) as = some (s,tr))
    (hk : s.killed = false) (sigNum : Signal) :
    ∃ t es, s.step (.signal sigNum) = some (t,es) ∧
      (t.killed = false ↔ Armed c sigNum as s) ∧
      (t.killed = false → t.main = (s.main.push sigNum.command).1 ∧
        es = (s.main.push sigNum.command).2 ∧ ¬ Armed c sigNum (as ++ [.signal sigNum]) t) ∧
      (∀ n, n ≠ sigNum → (Armed c n (as ++ [.signal sigNum]) t ↔ Armed c n as s)) ∧
      (t.killed = true → es = [] ∧ ∀ a, t.step a = none) := by
  have hs : s.step (.signal sigNum) = some (s.deliver sigNum) := by simp [System.step,hk]
  have hafter : run System.step (.initial c) (as ++ [.signal sigNum]) =
      some ((s.deliver sigNum).1,tr ++ (s.deliver sigNum).2) :=
    run_append_iff.mpr ⟨s,tr,_,hr,run_singleton_iff.mpr hs,rfl⟩
  have hgone : ¬ Armed c sigNum (as ++ [.signal sigNum]) (s.deliver sigNum).1 := by
    rw [← handler_iff_armed hafter,s.deliver_disposition_self]
    simp
  have hothers : ∀ n, n ≠ sigNum →
      (Armed c n (as ++ [.signal sigNum]) (s.deliver sigNum).1 ↔ Armed c n as s) := by
    intro n hn
    rw [← handler_iff_armed hafter,← handler_iff_armed hr,s.deliver_disposition_of_ne hn]
  refine ⟨(s.deliver sigNum).1,(s.deliver sigNum).2,hs,?_⟩
  rw [← handler_iff_armed hr]
  cases hd : s.disposition sigNum with
  | default =>
    refine ⟨?_,?_,hothers,?_⟩
    · simp [System.deliver_killed hd]
    · simp [System.deliver_killed hd]
    · simp [System.deliver_killed hd,System.step]
  | signalHandler =>
    obtain ⟨hmain,hes,hkilled⟩ := System.deliver_handled hd
    rw [hk] at hkilled
    exact ⟨by simp [hkilled],fun _ => ⟨hmain,hes,hgone⟩,hothers,fun h => by simp [hkilled] at h⟩

end Runs

theorem signal_survived_iff_pipe_after_hup :
    ∃ s tr t es, run System.step (.initial .none)
        [.loop true,.loop true,.loop true,.loop true,.signal .hup] = some (s,tr) ∧
      s.step (.signal .pipe) = some (t,es) ∧ es = [.accepted .restart] ∧
      Armed .none .pipe [.loop true,.loop true,.loop true,.loop true,.signal .hup] s := by
  obtain ⟨t,es,hs,hiff,_⟩ := @signal_survived_iff .none
    [.loop true,.loop true,.loop true,.loop true,.signal .hup] _ _ rfl rfl .pipe
  have halive : t.killed = false :=
    (congrArg (fun r => r.1.killed) (Option.some.inj hs)).symm
  have hes : es = [.accepted .restart] := (congrArg Prod.snd (Option.some.inj hs)).symm
  exact ⟨_,_,t,es,rfl,hs,hes,hiff.mp halive⟩

end Ceclircd
