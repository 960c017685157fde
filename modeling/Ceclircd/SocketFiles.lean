import Mathlib.Logic.Function.Basic
set_option autoImplicit false

/-! Directory entries as `unlink`, `bind` and `chmod` reach them through a path. What a path
names and who may change what is left to the kernel, with the documented rules it keeps. -/

namespace SocketFiles

/-- What an entry leads to. A socket has its permission bits, and the round that made it unless
it was there before. -/
inductive Node (Other : Type) where
  | socket (mode : Nat) (made : Option Nat)
  | other (n : Other)
  deriving DecidableEq, Repr

abbrev Files (Entry Other : Type) := Entry → Option (Node Other)

structure Kernel (Entry Other : Type) [DecidableEq Entry] where
  /-- The entry that a path names, where its last component is not followed. -/
  locate : Files Entry Other → List Char → Option Entry
  /-- The entry of the node that `chmod` reaches. -/
  follow : Files Entry Other → List Char → Option Entry
  mayCreate : Files Entry Other → Entry → Bool
  mayRemove : Files Entry Other → Entry → Bool
  mayChange : Files Entry Other → Entry → Bool
  socketMode : Nat
  chmodOther : Files Entry Other → Entry → Files Entry Other
  locate_empty : ∀ fs, locate fs [] = none
  follow_empty : ∀ fs, follow fs [] = none
  /-- A path does not lead through a socket, nor through an entry that is not there. -/
  locate_socket : ∀ fs path e mode made, locate fs path = some e →
    (∀ n, fs e ≠ some (.other n)) →
      locate (Function.update fs e (some (.socket mode made))) path = some e
  follow_socket : ∀ fs path e mode made, locate fs path = some e →
    fs e = some (.socket mode made) → follow fs path = some e
  /-- Who may create a node in a directory may remove it, and owns it. -/
  mayRemove_created : ∀ fs e mode made, fs e = none → mayCreate fs e = true →
    mayRemove (Function.update fs e (some (.socket mode made))) e = true
  mayChange_created : ∀ fs e mode made, fs e = none → mayCreate fs e = true →
    mayChange (Function.update fs e (some (.socket mode made))) e = true

/-- How `bind` to the name of a socket ends. `abstractName` is the empty name, which needs no entry. -/
inductive BindResult (Entry Other : Type) where
  | created (e : Entry)
  | abstractName
  | inUse (node : Node Other)
  | failed
  deriving DecidableEq, Repr

def BindResult.succeeds {Entry Other : Type} : BindResult Entry Other → Bool
  | .created _ | .abstractName => true
  | .inUse _ | .failed => false

section
variable {Entry Other : Type}

def Made (fs : Files Entry Other) (e : Entry) : Prop :=
  ∃ mode round, fs e = some (.socket mode (some round))

variable [DecidableEq Entry]

namespace Kernel

def unlink (K : Kernel Entry Other) (fs : Files Entry Other) (path : List Char) :
    Files Entry Other × Option Entry :=
  match K.locate fs path with
  | none => (fs,none)
  | some e =>
    if (fs e).isSome ∧ K.mayRemove fs e then (Function.update fs e none,some e) else (fs,none)

/-- `ok` is whether anything but the name stands in the way. -/
def bind (K : Kernel Entry Other) (fs : Files Entry Other) (name : List Char) (ok : Bool)
    (round : Nat) : Files Entry Other × BindResult Entry Other :=
  if name = [] then (fs,if ok then .abstractName else .failed)
  else
    match K.locate fs name with
    | none => (fs,.failed)
    | some e =>
      match fs e with
      | some node => (fs,.inUse node)
      | none =>
        if ok ∧ K.mayCreate fs e then
          (Function.update fs e (some (.socket K.socketMode (some round))),.created e)
        else (fs,.failed)

def chmod (K : Kernel Entry Other) (fs : Files Entry Other) (path : List Char) (mode : Nat) :
    Files Entry Other × Option Entry :=
  match K.follow fs path with
  | none => (fs,none)
  | some e =>
    match fs e with
    | none => (fs,none)
    | some node =>
      if K.mayChange fs e then
        match node with
        | .socket _ made => (Function.update fs e (some (.socket mode made)),some e)
        | .other _ => (K.chmodOther fs e,some e)
      else (fs,none)

def Kept (K : Kernel Entry Other) (path : List Char) (mode : Nat) (fs : Files Entry Other) :
    Prop :=
  ∀ e m round, fs e = some (.socket m (some round)) →
    K.locate fs path = some e ∧ m = mode ∧ K.mayRemove fs e = true

variable {K : Kernel Entry Other} {fs : Files Entry Other} {path : List Char} {mode : Nat}

theorem kept_of_none (h : ∀ e, ¬ Made fs e) : K.Kept path mode fs :=
  fun e m round he => absurd ⟨m,round,he⟩ (h e)

theorem unlink_made {e : Entry} (h : Made (K.unlink fs path).1 e) : Made fs e := by
  unfold unlink at h
  cases hloc : K.locate fs path with
  | none => simpa [hloc] using h
  | some d =>
    simp only [hloc] at h
    split at h
    · obtain ⟨m,round,he⟩ := h
      dsimp only at he
      by_cases hd : e = d
      · subst hd
        simp at he
      · rw [Function.update_of_ne hd] at he
        exact ⟨m,round,he⟩
    · exact h

theorem Kept.unlink (h : K.Kept path mode fs) :
    (∀ e, Made fs e → (K.unlink fs path).2 = some e) ∧ ∀ e, ¬ Made (K.unlink fs path).1 e := by
  have hremoved : ∀ e, Made fs e → K.unlink fs path = (Function.update fs e none,some e) := by
    rintro e ⟨m,round,he⟩
    obtain ⟨hloc,-,hmay⟩ := h e m round he
    simp [Kernel.unlink,hloc,he,hmay]
  refine ⟨fun e he => by rw [hremoved e he],fun e hmade => ?_⟩
  have hafter := hmade
  rw [hremoved e (unlink_made hmade)] at hafter
  obtain ⟨m,round,he⟩ := hafter
  simp at he

theorem bind_cases (K : Kernel Entry Other) (fs : Files Entry Other) (name : List Char) (ok : Bool)
    (round : Nat) :
    (∃ e, K.locate fs name = some e ∧ fs e = none ∧ K.mayCreate fs e = true ∧
      K.bind fs name ok round =
        (Function.update fs e (some (.socket K.socketMode (some round))),.created e)) ∨
    (name = [] ∧ K.bind fs name ok round = (fs,.abstractName)) ∨
    K.bind fs name ok round = (fs,.failed) ∨
    ∃ e node, fs e = some node ∧ K.bind fs name ok round = (fs,.inUse node) := by
  unfold bind
  by_cases hname : name = []
  · cases ok <;> simp [hname]
  · rw [if_neg hname]
    cases hloc : K.locate fs name with
    | none => simp
    | some e =>
      cases he : fs e with
      | some node => exact .inr (.inr (.inr ⟨e,node,he,by simp only [he]⟩))
      | none =>
        by_cases hmay : ok = true ∧ K.mayCreate fs e = true
        · exact .inl ⟨e,rfl,he,hmay.2,by simp only [he,if_pos hmay]⟩
        · exact .inr (.inr (.inl (by simp only [he,if_neg hmay])))

theorem chmod_created (K : Kernel Entry Other) {e : Entry} (hloc : K.locate fs path = some e)
    (he : fs e = none) (hmay : K.mayCreate fs e = true) (m round mode : Nat) :
    K.chmod (Function.update fs e (some (.socket m (some round)))) path mode =
      (Function.update fs e (some (.socket mode (some round))),some e) := by
  have hlocate := K.locate_socket fs path e m (some round) hloc (by simp [he])
  have hfollow := K.follow_socket _ path e m (some round) hlocate (Function.update_self ..)
  have hchange := K.mayChange_created fs e m (some round) he hmay
  simp [chmod,hfollow,hchange]

theorem kept_created (K : Kernel Entry Other) {e : Entry} (hloc : K.locate fs path = some e)
    (he : fs e = none) (hmay : K.mayCreate fs e = true) (hnone : ∀ e, ¬ Made fs e)
    (round mode : Nat) :
    K.Kept path mode (Function.update fs e (some (.socket mode (some round)))) := by
  intro d m k hd
  by_cases hde : d = e
  · subst hde
    rw [Function.update_self] at hd
    obtain ⟨rfl,rfl⟩ : mode = m ∧ round = k := by simpa using hd
    exact ⟨K.locate_socket fs path d mode (some round) hloc (by simp [he]),rfl,
      K.mayRemove_created fs d mode (some round) he hmay⟩
  · rw [Function.update_of_ne hde] at hd
    exact absurd ⟨m,k,hd⟩ (hnone d)

end Kernel

end

end SocketFiles
