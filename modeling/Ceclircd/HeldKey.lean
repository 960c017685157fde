import Ceclircd.KeyRepeat
set_option autoImplicit false

/-! A key that is pressed and held: its first lines, and one repetition for every
release counted from the third on. -/

namespace Ceclircd
open RunTrace

def Mapped (keycode : Int) : Prop := inKeyRange keycode ∧ uinputCecMap keycode ≠ []

instance (keycode : Int) : Decidable (Mapped keycode) := inferInstanceAs (Decidable (_ ∧ _))

/-- What may come while the key is held: button releases, key releases, codes without
an entry, and commands that fall to the `default` of the switch. -/
def WhileHeld : KeyAction → Prop
  | .keyPress key =>
      (0 < key.duration ∧ key.keycode ≠ UserControlCode.anChannelsList ∧
        key.keycode ≠ UserControlCode.anReturn) ∨ ¬ Mapped key.keycode
  | .command command =>
      command.opcode = .vendorRemoteButtonUp ∨ ∃ code, command.opcode = .other code
  | .menuStateChanged | .standby => False

def keyLines (keycode : Int) (repeated : Bool) : List Line :=
  (uinputCecMap keycode).map fun ukey => ⟨keycode,repeated,ukey⟩

structure Main.Holds (m : Main) (keycode : Int) (n : Nat) : Prop where
  lastKey : m.lastKey.keycode = keycode
  repeatCount : m.repeatCount = n

theorem Mapped.accepts {keycode : Int} (h : Mapped keycode) : Main.acceptsKey ⟨keycode,0⟩ :=
  ⟨h.1,h.2,.inl rfl⟩

theorem WhileHeld.not_accepts {key : Keypress} (h : WhileHeld (.keyPress key)) :
    ¬ Main.acceptsKey key := by
  intro ha
  rcases h with ⟨hd,hlist,hreturn⟩ | hm
  · rcases ha.2.2 with h0 | h0 | h0
    · omega
    · exact hlist h0
    · exact hreturn h0
  · exact hm ⟨ha.1,ha.2.1⟩

theorem toInt32_of_lt {n : Nat} (h : n < 2 ^ 31) : toInt32 n = n := by
  unfold toInt32
  rw [Int.bmod_eq_of_le] <;> omega

theorem Main.Holds.buttonUp {m : Main} {keycode : Int} {n : Nat} (h : m.Holds keycode n)
    (hk : Mapped keycode) (hn : n + 1 < 2 ^ 31) :
    (m.onCecCommand ⟨.vendorRemoteButtonUp,[]⟩).1.Holds keycode (n + 1) ∧
      lines (m.onCecCommand ⟨.vendorRemoteButtonUp,[]⟩).2 =
        if n + 1 > 2 then keyLines keycode true else [] := by
  have hcount : toInt32 (m.repeatCount + 1) = (n + 1 : Nat) := by
    rw [h.repeatCount]
    exact toInt32_of_lt hn
  have hunknown : keycode ≠ UserControlCode.unknown := by
    have hmax := hk.1.2
    simp only [UserControlCode.max] at hmax
    simp only [UserControlCode.unknown]
    omega
  simp only [onCecCommand,hcount,h.lastKey]
  by_cases h2 : n + 1 > 2
  · have hrep : ((n + 1 : Nat) : Int) > 2 := by omega
    rw [if_pos ⟨hrep,hunknown⟩,if_pos h2,onCecKeyPressCode,onCecKeyPress_accepts _ hk.accepts]
    refine ⟨⟨rfl,rfl⟩,?_⟩
    dsimp only
    rw [lines_map,decide_eq_true hrep]
    rfl
  · have hrep : ¬ ((n + 1 : Nat) : Int) > 2 := by omega
    rw [if_neg (fun hc => hrep hc.1),if_neg h2]
    exact ⟨⟨h.lastKey,rfl⟩,rfl⟩

def isButtonUp : KeyAction → Bool := KeyAction.hasOpcode .vendorRemoteButtonUp

theorem Main.Holds.step {m : Main} {keycode : Int} {n : Nat} {a : KeyAction}
    (h : m.Holds keycode n) (hk : Mapped keycode) (ha : WhileHeld a)
    (hn : n + (if isButtonUp a then 1 else 0) < 2 ^ 31) :
    ∃ m' es, keyStep m a = some (m',es) ∧
      m'.Holds keycode (n + if isButtonUp a then 1 else 0) ∧
      lines es = if isButtonUp a ∧ n + 1 > 2 then keyLines keycode true else [] := by
  cases a with
  | keyPress key =>
    refine ⟨m,[],?_,h,rfl⟩
    simp only [keyStep]
    rw [Main.onCecKeyPress_ignores m ha.not_accepts]
  | command command =>
    obtain ⟨opcode,parameters⟩ := command
    rcases ha with hup | ⟨code,hother⟩
    · dsimp only at hup
      subst hup
      obtain ⟨hholds,hlines⟩ := h.buttonUp hk hn
      refine ⟨_,_,rfl,hholds,hlines.trans ?_⟩
      simp [isButtonUp,KeyAction.hasOpcode]
    · dsimp only at hother
      subst hother
      exact ⟨m,[],rfl,h,rfl⟩
  | menuStateChanged => exact ha.elim
  | standby => exact ha.elim

/-- Counted on from `n`, the releases beyond the second each repeat the key. -/
theorem Main.Holds.run {m : Main} {keycode : Int} {n : Nat} {mix : List KeyAction}
    (h : m.Holds keycode n) (hk : Mapped keycode) (hmix : ∀ a ∈ mix, WhileHeld a)
    (hn : n + mix.countP isButtonUp < 2 ^ 31) :
    ∃ m' tr, RunTrace.run keyStep m mix = some (m',tr) ∧
      m'.Holds keycode (n + mix.countP isButtonUp) ∧
      lines tr = (List.replicate (n + mix.countP isButtonUp - max n 2)
        (keyLines keycode true)).flatten := by
  induction mix generalizing m n with
  | nil =>
    refine ⟨m,[],rfl,h,?_⟩
    have hzero : n - max n 2 = 0 := by omega
    simp [hzero]
  | cons a mix ih =>
    rw [List.countP_cons] at hn ⊢
    obtain ⟨m₁,es,hs,h₁,hes⟩ := h.step hk (hmix a (by simp)) (by omega)
    obtain ⟨m',tr,hr,h',htr⟩ := ih h₁ (fun b hb => hmix b (by simp [hb])) (by omega)
    refine ⟨m',es ++ tr,run_cons_iff.mpr ⟨m₁,es,tr,hs,hr,rfl⟩,?_,?_⟩
    · rw [← Nat.add_assoc,Nat.add_right_comm]
      exact h'
    · rw [lines_append,hes,htr]
      cases hup : isButtonUp a with
      | false => simp
      | true =>
        by_cases h2 : n + 1 > 2
        · -- the release is counted and repeats the key
          have hsucc : n + (mix.countP isButtonUp + 1) - max n 2 =
              n + 1 + mix.countP isButtonUp - max (n + 1) 2 + 1 := by omega
          simp only [if_true,true_and,if_pos h2]
          rw [hsucc,List.replicate_succ]
          rfl
        · have hsame : n + (mix.countP isButtonUp + 1) - max n 2 =
              n + 1 + mix.countP isButtonUp - max (n + 1) 2 := by omega
          simp only [if_true,true_and,if_neg h2,List.nil_append]
          rw [hsame]

/-- From any state: a USER_CONTROL_PRESSED, a press of a mapped key, and any mix with
`n` releases in it. -/
theorem heldKey_lines {keycode : Int} (hk : Mapped keycode) {mix : List KeyAction}
    (hmix : ∀ a ∈ mix, WhileHeld a) (hn : mix.countP isButtonUp < 2 ^ 31) (m : Main)
    (parameters : List Nat) :
    ∃ m' tr, run keyStep m (.command ⟨.userControlPressed,parameters⟩ ::
        .keyPress ⟨keycode,0⟩ :: mix) = some (m',tr) ∧
      lines tr = keyLines keycode false ++
        (List.replicate (mix.countP isButtonUp - 2) (keyLines keycode true)).flatten ∧
      m'.lastKey.keycode = keycode ∧ m'.repeatCount = mix.countP isButtonUp := by
  let reset : Main := { m with
    repeatCount := 0
    lastKey := { m.lastKey with keycode := UserControlCode.unknown } }
  have hpress : reset.onCecKeyPress ⟨keycode,0⟩ = ({ reset with lastKey := ⟨keycode,0⟩ },
      (uinputCecMap keycode).map fun ukey => Main.writeLirc ⟨keycode,0⟩ ukey false) :=
    Main.onCecKeyPress_accepts reset hk.accepts
  have hholds : Main.Holds { reset with lastKey := ⟨keycode,0⟩ } keycode 0 := ⟨rfl,rfl⟩
  obtain ⟨m',tr,hr,h',htr⟩ := hholds.run hk hmix (by omega)
  rw [Nat.zero_add] at h' htr
  refine ⟨m',(uinputCecMap keycode).map (fun ukey => Main.writeLirc ⟨keycode,0⟩ ukey false) ++ tr,
    ?_,?_,h'.lastKey,h'.repeatCount⟩
  · exact run_cons_iff.mpr
      ⟨reset,[],_,rfl,run_cons_iff.mpr ⟨_,_,tr,congrArg some hpress,hr,rfl⟩,rfl⟩
  · rw [lines_append,lines_map,htr]
    rfl

theorem heldKey_lines_up :
    ∃ m' tr, run keyStep (Main.initial .none)
        [.command ⟨.userControlPressed,[1]⟩,.keyPress ⟨UserControlCode.up,0⟩,
          .command ⟨.vendorRemoteButtonUp,[]⟩,.keyPress ⟨UserControlCode.up,120⟩,
          .command ⟨.vendorRemoteButtonUp,[]⟩,.keyPress ⟨0x97,0⟩,
          .command ⟨.vendorRemoteButtonUp,[]⟩,.command ⟨.other 0x8C,[]⟩,
          .command ⟨.vendorRemoteButtonUp,[]⟩] = some (m',tr) ∧
      lines tr = keyLines UserControlCode.up false ++ (List.replicate 2
        (keyLines UserControlCode.up true)).flatten ∧
      m'.lastKey.keycode = UserControlCode.up ∧ m'.repeatCount = 4 := by
  have hmix : ∀ a ∈ [KeyAction.command ⟨.vendorRemoteButtonUp,[]⟩,
      .keyPress ⟨UserControlCode.up,120⟩,.command ⟨.vendorRemoteButtonUp,[]⟩,
      .keyPress ⟨0x97,0⟩,.command ⟨.vendorRemoteButtonUp,[]⟩,.command ⟨.other 0x8C,[]⟩,
      .command ⟨.vendorRemoteButtonUp,[]⟩], WhileHeld a := by
    intro a ha
    simp only [List.mem_cons,List.not_mem_nil,or_false] at ha
    rcases ha with rfl | rfl | rfl | rfl | rfl | rfl | rfl
    · exact .inl rfl
    · exact .inl (by decide)
    · exact .inl rfl
    · exact .inr (by decide)
    · exact .inl rfl
    · exact .inr ⟨_,rfl⟩
    · exact .inl rfl
  exact heldKey_lines (by decide) hmix (by decide) (Main.initial .none) [1]

end Ceclircd
