import Ceclircd.KeyRuns
import Mathlib.Data.List.Forall2
set_option autoImplicit false

/-! The stream of lines as a reader takes it apart: records end at newlines, and their
fields are separated by single spaces. -/

namespace Ceclircd

def hexValue (c : Char) : Nat := if c.isDigit then c.toNat - 48 else c.toNat - 87

def readHex (cs : List Char) : Nat := cs.foldl (fun n c => 16 * n + hexValue c) 0

theorem hexValue_digitChar : ∀ d < 16, hexValue d.digitChar = d := by decide

theorem readHex_toDigits (n : Nat) : readHex (Nat.toDigits 16 n) = n := by
  induction n using Nat.base_induction 16 (by decide) with
  | single m hm =>
    rw [Nat.toDigits_of_lt_base hm]
    simp [readHex,hexValue_digitChar m hm]
  | digit m k hk hm ih =>
    rw [← Nat.toDigits_append_toDigits (by decide) hm hk,Nat.toDigits_of_lt_base hk]
    simp only [readHex,List.foldl_append,List.foldl_cons,List.foldl_nil] at ih ⊢
    rw [ih,hexValue_digitChar k hk]

/-- The calls of `onCecKeyPress`, each in a state of its own: any key state, any count. -/
def emitted (calls : List (Main × Keypress)) : List Line :=
  calls.flatMap fun call => lines (call.1.onCecKeyPress call.2).2

def stream (ls : List Line) : List Char := ls.flatMap fun l => l.text.toList

/-- Every record is ended by a newline, so nothing follows the last one. -/
def records (s : List Char) : List (List (List Char)) :=
  ((s.splitOn '\n').dropLast).map fun record => record.splitOn ' '

/-- Four non-empty fields that read back as the code, the flag, the name and the remote. -/
inductive ReadsBack : List (List Char) → Line → Prop where
  | fields {code flag name remote : List Char} {l : Line} (hcode : code ≠ []) (hflag : flag ≠ [])
      (hname : name ≠ []) (hremote : remote ≠ []) (hc : (readHex code : Int) = l.keycode)
      (hf : flag = [if l.repeated then '1' else '0']) (hn : name = l.keyString.toList)
      (hr : remote = "RPICEC".toList) : ReadsBack [code,flag,name,remote] l

def Decodes (s : List Char) (ls : List Line) : Prop := List.Forall₂ ReadsBack (records s) ls

theorem ReadsBack.unique {fields : List (List Char)} {l l' : Line} (h : ReadsBack fields l)
    (h' : ReadsBack fields l') : l = l' := by
  cases h with
  | fields _ _ _ _ hc hf hn _ =>
    cases h' with
    | fields _ _ _ _ hc' hf' hn' _ =>
      obtain ⟨k,b,name⟩ := l
      obtain ⟨k',b',name'⟩ := l'
      have hk : k = k' := hc.symm.trans hc'
      have hb : b = b' := by cases b <;> cases b' <;> simp_all
      have hs : name = name' := String.toList_inj.mp (hn.symm.trans hn')
      rw [hk,hb,hs]

theorem Decodes.unique {s : List Char} {ls ls' : List Line} (h : Decodes s ls)
    (h' : Decodes s ls') : ls = ls' := by
  unfold Decodes at h h'
  generalize records s = rs at h h'
  induction h generalizing ls' with
  | nil => cases h'; rfl
  | cons hl _ ih =>
    cases h' with
    | cons hl' h' => rw [hl.unique hl',ih h']

structure Line.Separable (l : Line) : Prop where
  nonneg : 0 ≤ l.keycode
  code : ∀ c ∈ Nat.toDigits 16 l.keycode.toNat, c ≠ ' ' ∧ c ≠ '\n'
  name : ∀ c ∈ l.keyString.toList, c ≠ ' ' ∧ c ≠ '\n'

def Line.fields (l : Line) : List (List Char) :=
  [Nat.toDigits 16 l.keycode.toNat,[if l.repeated then '1' else '0'],l.keyString.toList,
    "RPICEC".toList]

theorem Line.text_toList (l : Line) : l.text.toList =
    Nat.toDigits 16 l.keycode.toNat ++ ' ' :: (if l.repeated then '1' else '0') :: ' ' ::
      (l.keyString.toList ++ ' ' :: ("RPICEC".toList ++ ['\n'])) := by
  unfold Line.text
  cases l.repeated <;> simp

theorem Line.Separable.record {l : Line} (h : l.Separable) :
    ∃ record, l.text.toList = record ++ ['\n'] ∧ '\n' ∉ record ∧ record.splitOn ' ' = l.fields := by
  have hflag : (if l.repeated then '1' else '0') ≠ ' ' ∧
      (if l.repeated then '1' else '0') ≠ '\n' := by cases l.repeated <;> decide
  refine ⟨Nat.toDigits 16 l.keycode.toNat ++ ' ' :: ([if l.repeated then '1' else '0'] ++
    ' ' :: (l.keyString.toList ++ ' ' :: "RPICEC".toList)),?_,?_,?_⟩
  · rw [l.text_toList]
    simp only [List.append_assoc,List.cons_append,List.nil_append]
  · intro hmem
    simp only [List.mem_append,List.mem_cons,List.not_mem_nil,or_false] at hmem
    rcases hmem with hc | hc | hc | hc | hc | hc | hc
    · exact (h.code _ hc).2 rfl
    · exact absurd hc (by decide)
    · exact hflag.2 hc.symm
    · exact absurd hc (by decide)
    · exact (h.name _ hc).2 rfl
    · exact absurd hc (by decide)
    · exact absurd hc (by decide)
  · have hcode : ' ' ∉ Nat.toDigits 16 l.keycode.toNat := fun hc => (h.code _ hc).1 rfl
    have hname : ' ' ∉ l.keyString.toList := fun hc => (h.name _ hc).1 rfl
    have hbit : ' ' ∉ [if l.repeated then '1' else '0'] :=
      fun hc => hflag.1 (List.mem_singleton.mp hc).symm
    rw [List.splitOn_append_cons_self_of_not_mem hcode,
      List.splitOn_append_cons_self_of_not_mem hbit,
      List.splitOn_append_cons_self_of_not_mem hname,
      List.splitOn_eq_singleton (by decide)]
    rfl

theorem records_stream {ls : List Line} (h : ∀ l ∈ ls, l.Separable) :
    records (stream ls) = ls.map Line.fields := by
  induction ls with
  | nil => rfl
  | cons l ls ih =>
    obtain ⟨record,htext,hnl,hsplit⟩ := (h l (by simp)).record
    have hi := ih fun x hx => h x (by simp [hx])
    have hstream : stream (l :: ls) = record ++ '\n' :: stream ls := by
      simp [stream,htext]
    unfold records at hi ⊢
    rw [hstream,List.splitOn_append_cons_self_of_not_mem hnl,
      List.dropLast_cons_of_ne_nil (List.splitOn_ne_nil _ _),List.map_cons,hi,hsplit]
    rfl

theorem Line.Separable.readsBack_iff {l : Line} (h : l.Separable) :
    ReadsBack l.fields l ↔ l.keyString ≠ "" := by
  have hcode : (readHex (Nat.toDigits 16 l.keycode.toNat) : Int) = l.keycode := by
    rw [readHex_toDigits]
    exact Int.toNat_of_nonneg h.nonneg
  constructor
  · intro hr hempty
    have hfields := hr
    unfold Line.fields at hfields
    cases hfields with
    | fields _ _ hname => simp [hempty] at hname
  · intro hne
    refine .fields ?_ (by simp) (by simpa using hne) (by decide) hcode rfl rfl rfl
    exact List.ne_nil_of_length_pos Nat.length_toDigits_pos

theorem decodes_stream_iff {ls : List Line} (h : ∀ l ∈ ls, l.Separable) :
    Decodes (stream ls) ls ↔ ∀ l ∈ ls, l.keyString ≠ "" := by
  unfold Decodes
  rw [records_stream h,List.forall₂_map_left_iff,List.forall₂_same]
  constructor
  · intro hr l hl
    exact (h l hl).readsBack_iff.mp (hr l hl)
  · intro hne l hl
    exact (h l hl).readsBack_iff.mpr (hne l hl)

/-- What the format needs of the table: no name and no code has a separator in it. -/
theorem uinputAssignments_check : (uinputAssignments.all fun entry =>
    ((Nat.toDigits 16 entry.1.toNat).all fun c => c ≠ ' ' ∧ c ≠ '\n') &&
      entry.2.all fun ukey => ukey.toList.all fun c => c ≠ ' ' ∧ c ≠ '\n') = true := by decide

theorem uinputAssignments_separable : ∀ entry ∈ uinputAssignments,
    (∀ c ∈ Nat.toDigits 16 entry.1.toNat, c ≠ ' ' ∧ c ≠ '\n') ∧
      ∀ ukey ∈ entry.2, ∀ c ∈ ukey.toList, c ≠ ' ' ∧ c ≠ '\n' := by
  have h := uinputAssignments_check
  simp only [List.all_eq_true,Bool.and_eq_true,decide_eq_true_eq] at h
  exact h

theorem lines_onCecKeyPress (m : Main) (key : Keypress) : lines (m.onCecKeyPress key).2 =
    if Main.acceptsKey key then
      (uinputCecMap key.keycode).map fun ukey => ⟨key.keycode,m.repeatCount > 2,ukey⟩
    else [] := by
  by_cases h : Main.acceptsKey key
  · rw [Main.onCecKeyPress_accepts m h,if_pos h]
    exact lines_map key _ _
  · rw [Main.onCecKeyPress_ignores m h,if_neg h]
    rfl

theorem emitted_separable {calls : List (Main × Keypress)} :
    ∀ l ∈ emitted calls, l.Separable := by
  intro l hl
  obtain ⟨⟨m,key⟩,_,hl⟩ := List.mem_flatMap.mp hl
  rw [lines_onCecKeyPress] at hl
  by_cases h : Main.acceptsKey key
  · rw [if_pos h] at hl
    obtain ⟨ukey,hu,rfl⟩ := List.mem_map.mp hl
    obtain ⟨hcode,hname⟩ := uinputAssignments_separable _ (uinputCecMap_assigned h.1.1 h.2.1)
    exact ⟨h.1.1,hcode,hname ukey hu⟩
  · simp [if_neg h] at hl

theorem emitted_named_iff (calls : List (Main × Keypress)) :
    (∀ l ∈ emitted calls, l.keyString ≠ "") ↔
      ∀ call ∈ calls, Main.acceptsKey call.2 → "" ∉ uinputCecMap call.2.keycode := by
  constructor
  · intro h call hcall hacc hmem
    refine h ⟨call.2.keycode,call.1.repeatCount > 2,""⟩ ?_ rfl
    refine List.mem_flatMap.mpr ⟨call,hcall,?_⟩
    rw [lines_onCecKeyPress,if_pos hacc]
    exact List.mem_map.mpr ⟨"",hmem,rfl⟩
  · intro h l hl
    obtain ⟨call,hcall,hl⟩ := List.mem_flatMap.mp hl
    rw [lines_onCecKeyPress] at hl
    by_cases hacc : Main.acceptsKey call.2
    · rw [if_pos hacc] at hl
      obtain ⟨ukey,hu,rfl⟩ := List.mem_map.mp hl
      intro hempty
      exact h call hcall hacc (hempty ▸ hu)
    · simp [if_neg hacc] at hl

/-- The stream decodes, to the lines written and to nothing else, exactly when no key
that was accepted is mapped to the empty name. -/
theorem stream_decodes_iff (calls : List (Main × Keypress)) :
    (Decodes (stream (emitted calls)) (emitted calls) ∧
        ∀ ls, Decodes (stream (emitted calls)) ls → ls = emitted calls) ↔
      ∀ call ∈ calls, Main.acceptsKey call.2 → "" ∉ uinputCecMap call.2.keycode := by
  rw [← emitted_named_iff,← decodes_stream_iff emitted_separable]
  constructor
  · intro h
    exact h.1
  · intro h
    exact ⟨h,fun ls hls => hls.unique h⟩

theorem nextFavorite_not_decoded :
    records (stream (emitted [(Main.initial .none,⟨UserControlCode.nextFavorite,0⟩)])) =
        [["2f".toList,"0".toList,[],"RPICEC".toList]] ∧
      ¬ Decodes (stream (emitted [(Main.initial .none,⟨UserControlCode.nextFavorite,0⟩)]))
        (emitted [(Main.initial .none,⟨UserControlCode.nextFavorite,0⟩)]) := by
  have h : records (stream (emitted [(Main.initial .none,⟨UserControlCode.nextFavorite,0⟩)])) =
      [["2f".toList,"0".toList,[],"RPICEC".toList]] := by decide
  refine ⟨h,fun hd => ?_⟩
  unfold Decodes at hd
  rw [h] at hd
  cases hd with
  | cons hr _ => cases hr with
    | fields _ _ hname => exact hname rfl

end Ceclircd
