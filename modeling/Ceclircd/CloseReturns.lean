import Ceclircd.AcceptThread
set_option autoImplicit false

/-! `lirc::Close` waits for the accept thread: how many steps of the two it can take until
`pthread_join` returns. -/

namespace Ceclircd
open RunTrace

def OwnerPc.closing : OwnerPc → Bool
  | .shutdown | .close | .join => true
  | _ => false

def OwnerPc.toGo : OwnerPc → Nat
  | .shutdown => 3
  | .close => 2
  | .join => 1
  | _ => 0

/-- The thread's way out once `isRunning` is false: `select` may come with a client, and
the client is accepted before the condition is read. -/
def ThreadPc.toLeave : ThreadPc → Nat
  | .select => 4
  | .processnewclient => 3
  | .test => 2
  | .ending => 1
  | .absent | .left | .threw => 0

/-- A step of the process, not of a client. -/
def ServerAction.own : ServerAction → Bool
  | .owner _ | .thread _ => true
  | .connect => false

namespace Server

def toClose (s : Server) : Nat := s.owner.toGo + s.thread.toLeave

def returnsClose (s : Server) : ServerAction → Bool
  | .owner _ => s.owner == .join
  | .thread _ | .connect => false

structure Closing (s : Server) : Prop where
  kept : s.Kept
  owner : s.owner.closing = true

theorem Closing.not_running {s : Server} (h : s.Closing) : s.isRunning = false := by
  have hs := h.kept.socket
  have ho := h.owner
  unfold socketAt at hs
  cases hp : s.owner with
  | shutdown =>
    simp only [hp] at hs
    exact hs.2.2
  | close =>
    simp only [hp] at hs
    exact hs.2
  | join =>
    simp only [hp] at hs
    exact hs
  | _ => simp [hp,OwnerPc.closing] at ho

theorem Closing.ownerStep {s t : Server} {result : Int} (h : s.Closing)
    (hj : s.returnsClose (.owner result) = false) (hs : s.ownerStep result = some t) :
    t.owner.closing = true ∧ t.toClose + 1 ≤ s.toClose := by
  have ho := h.owner
  have hsocket := h.kept.socket
  unfold socketAt at hsocket
  unfold Server.ownerStep at hs
  cases hp : s.owner with
  | shutdown =>
    simp only [hp] at hs hsocket
    rw [if_pos hsocket.1] at hs
    obtain rfl := Option.some.inj hs
    exact ⟨rfl,by simp only [toClose,hp,OwnerPc.toGo]; omega⟩
  | close =>
    simp only [hp] at hs
    obtain rfl := Option.some.inj hs
    exact ⟨rfl,by simp only [toClose,hp,OwnerPc.toGo]; omega⟩
  | join => simp [returnsClose,hp] at hj
  | _ => simp [hp,OwnerPc.closing] at ho

theorem Closing.threadStep {s t : Server} {hitch : Hitch} (h : s.Closing)
    (hq : s.timely (.thread hitch) = true) (hs : s.threadStep hitch = some t) :
    t.owner = s.owner ∧ t.toClose + 1 ≤ s.toClose := by
  have hr := h.not_running
  unfold Server.threadStep at hs
  cases ht : s.thread with
  | absent | left | threw => simp [ht] at hs
  | test =>
    simp only [ht,hr,Bool.false_eq_true,if_false] at hs
    obtain rfl := Option.some.inj hs
    exact ⟨rfl,by simp only [toClose,ht,ThreadPc.toLeave]; omega⟩
  | select =>
    simp only [ht] at hs
    rw [if_neg (h.kept.socket_of_select ht)] at hs
    cases hitch with
    | none =>
      simp only at hs
      split at hs
      · obtain rfl := Option.some.inj hs
        exact ⟨rfl,by simp only [toClose,ht,ThreadPc.toLeave]; omega⟩
      · simp at hs
    | eintr =>
      obtain rfl := Option.some.inj hs
      exact ⟨rfl,by simp only [toClose,ht,ThreadPc.toLeave]; omega⟩
    | noMemory => simp [timely,ht] at hq
  | processnewclient =>
    have hhitch : hitch ≠ .noMemory := by simpa [timely,ht] using hq
    simp only [ht] at hs
    rw [if_neg hhitch] at hs
    obtain rfl := Option.some.inj hs
    exact ⟨rfl,by simp only [toClose,ht,ThreadPc.toLeave]; omega⟩
  | ending =>
    simp only [ht] at hs
    obtain rfl := Option.some.inj hs
    exact ⟨rfl,by simp only [toClose,ht,ThreadPc.toLeave]; omega⟩

theorem Closing.step {s t : Server} {a : ServerAction} {es : List Empty} (h : s.Closing)
    (hq : s.timely a = true) (hj : s.returnsClose a = false) (hs : s.step a = some (t,es)) :
    t.Closing ∧ t.toClose + a.own.toNat ≤ s.toClose := by
  have hkept := h.kept.step hq hs
  cases a with
  | owner result =>
    obtain ⟨ho,hle⟩ := h.ownerStep hj (step_owner_iff.mp hs).2.1
    exact ⟨⟨hkept,ho⟩,hle⟩
  | thread hitch =>
    obtain ⟨ho,hle⟩ := h.threadStep hq (step_thread_iff.mp hs).2.1
    exact ⟨⟨hkept,ho ▸ h.owner⟩,hle⟩
  | connect =>
    obtain ⟨_,_,rfl,_⟩ := step_connect_iff.mp hs
    exact ⟨⟨hkept,h.owner⟩,Nat.le_refl _⟩

end Server

end Ceclircd
