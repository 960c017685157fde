import Ceclircd.LineText
import Ceclircd.LineStream
set_option autoImplicit false

/-! The bytes of a client as the text its program takes apart, also where the last line was
cut off. -/

namespace Ceclircd
open RunTrace

/-- The line of a key that the table maps. -/
def Line.Mapped (l : Line) : Prop :=
  ∃ key, Main.acceptsKey key ∧ l.keycode = key.keycode ∧ l.keyString ∈ uinputCecMap key.keycode

theorem KeyMove.lines_mapped {m m' : Main} {a : KeyAction} {es : List Event}
    (h : KeyMove m a m' es) : ∀ l ∈ lines es, l.Mapped := by
  have hmap : ∀ (key : Keypress) (b : Bool), Main.acceptsKey key →
      ∀ l ∈ lines ((uinputCecMap key.keycode).map (fun k => Main.writeLirc key k b)),
        l.Mapped := by
    intro key b ha l hl
    rw [lines_map] at hl
    obtain ⟨ukey,hu,rfl⟩ := List.mem_map.mp hl
    exact ⟨key,ha,rfl,hu⟩
  cases h with
  | fresh key hf hr hu =>
    by_cases ha : Main.acceptsKey key
    · rw [Main.onCecKeyPress_accepts m ha]
      exact hmap key _ ha
    · rw [Main.onCecKeyPress_ignores m ha]
      simp
  | reset => simp
  | buttonUp hf hr hu m' es hm =>
    rcases onCecCommand_buttonUp m with ⟨_,ha,heq⟩ | heq
    · rw [heq] at hm
      obtain ⟨-,rfl⟩ := Prod.mk.inj hm
      exact hmap ⟨m.lastKey.keycode,0⟩ true ha
    · rw [heq] at hm
      obtain ⟨-,rfl⟩ := Prod.mk.inj hm
      simp
  | other hf hr hu m' es hk hc hs hl => simp [hl]

/-- Only lines of mapped keys reach `processevent`. -/
theorem run_lines_mapped {c : Settings} {as : List Action} {s : System} {tr : List Event}
    (hr : run System.step (.initial c) as = some (s,tr)) : ∀ l ∈ lines tr, l.Mapped := by
  obtain ⟨ks,m,fs,hrun,_,heq⟩ := run_followedByKeys hr
  have hall : ∀ l ∈ lines fs, l.Mapped :=
    invariant (I := fun _ fs => ∀ l ∈ lines fs, l.Mapped)
      (fun s tr a t es hI hs l hl => by
        rw [lines_append,List.mem_append] at hl
        rcases hl with hl | hl
        · exact hI l hl
        · exact (keyStep_move hs).lines_mapped l hl) (by simp) hrun
  exact fun l hl => hall l (heq ▸ hl)

theorem uinputAssignments_ascii : (uinputAssignments.all fun entry =>
    ((Nat.toDigits 16 entry.1.toNat).all fun c => c.toNat < 128) &&
      entry.2.all fun ukey => ukey.toList.all fun c => c.toNat < 128) = true := by decide

section
variable {l : Line}

theorem Line.Mapped.assigned (h : l.Mapped) :
    ∃ entry ∈ uinputAssignments, l.keycode = entry.1 ∧ l.keyString ∈ entry.2 := by
  obtain ⟨key,ha,hcode,hname⟩ := h
  exact ⟨_,uinputCecMap_assigned ha.1.1 ha.2.1,hcode,hname⟩

theorem Line.Mapped.separable (h : l.Mapped) : l.Separable := by
  obtain ⟨entry,hentry,hcode,hname⟩ := h.assigned
  obtain ⟨hcodes,hnames⟩ := uinputAssignments_separable entry hentry
  obtain ⟨key,ha,hkey,_⟩ := h
  refine ⟨?_,?_,hnames l.keyString hname⟩
  · rw [hkey]
    exact ha.1.1
  · rw [hcode]
    exact hcodes

theorem Line.Mapped.fits (h : l.Mapped) : l.bytes.length ≤ intMax := by
  obtain ⟨key,ha,hcode,hname⟩ := h
  have hlen := bytes_length_le ha l.repeated hname
  have hline : Line.mk key.keycode l.repeated l.keyString = l := by rw [← hcode]
  rw [hline] at hlen
  exact Nat.le_trans hlen (by decide)

theorem Line.Mapped.ascii (h : l.Mapped) : ∀ c ∈ l.text.toList, c.toNat < 128 := by
  obtain ⟨entry,hentry,hcode,hname⟩ := h.assigned
  have hall := uinputAssignments_ascii
  simp only [List.all_eq_true,Bool.and_eq_true,decide_eq_true_eq] at hall
  obtain ⟨hcodes,hnames⟩ := hall entry hentry
  have hflag : (if l.repeated then '1' else '0').toNat < 128 := by cases l.repeated <;> decide
  have hremote : (("RPICEC".toList ++ ['\n']).all fun c => c.toNat < 128) = true := by decide
  intro c hc
  rw [l.text_toList,List.mem_append] at hc
  rcases hc with hc | hc
  · exact hcodes c (hcode ▸ hc)
  · rw [List.mem_cons,List.mem_cons,List.mem_cons,List.mem_append,List.mem_cons] at hc
    rcases hc with rfl | rfl | rfl | hc | rfl | hc
    · decide
    · exact hflag
    · decide
    · exact hnames l.keyString hname c hc
    · decide
    · simpa using List.all_eq_true.mp hremote c hc

end

/-! The bytes back as characters. -/

def byteChar (b : UInt8) : Char := Char.ofNat b.toNat

theorem byteChar_encode {c : Char} (h : c.toNat < 128) :
    (String.utf8EncodeChar c).map byteChar = [c] := by
  have hsize : c.utf8Size = 1 := by
    rw [Char.utf8Size_eq_one_iff,UInt32.le_iff_toNat_le]
    have hval : c.val.toNat < 128 := h
    have hlit : (127 : UInt32).toNat = 127 := rfl
    omega
  have hbyte : c.val.toUInt8.toNat = c.toNat := by
    rw [UInt32.toNat_toUInt8]
    exact Nat.mod_eq_of_lt (Nat.lt_trans h (by decide))
  rw [String.utf8EncodeChar_eq_singleton hsize,List.map_singleton,byteChar,hbyte,Char.ofNat_toNat]

theorem bytes_ascii {s : String} (h : ∀ c ∈ s.toList, c.toNat < 128) :
    s.toUTF8.data.toList.map byteChar = s.toList := by
  have hbytes : s.toUTF8.data.toList = s.toList.flatMap String.utf8EncodeChar := by
    rw [String.toUTF8_eq_toByteArray,← String.utf8Encode_toList,List.utf8Encode,
      List.data_toByteArray]
  rw [hbytes,List.map_flatMap]
  generalize s.toList = cs at h
  induction cs with
  | nil => rfl
  | cons c cs ih =>
    rw [List.flatMap_cons,byteChar_encode (h c (by simp)),ih fun d hd => h d (by simp [hd])]
    rfl

theorem Line.Mapped.bytes_text {l : Line} (h : l.Mapped) : l.bytes.map byteChar = l.text.toList :=
  bytes_ascii h.ascii

theorem bytes_stream {ls : List Line} (h : ∀ l ∈ ls, l.Mapped) :
    (ls.map Line.bytes).flatten.map byteChar = stream ls := by
  induction ls with
  | nil => rfl
  | cons l ls ih =>
    have htail := ih fun x hx => h x (by simp [hx])
    rw [List.map_cons,List.flatten_cons,List.map_append,htail,(h l (by simp)).bytes_text]
    rfl

/-- What follows the last newline is no record yet. -/
theorem records_stream_append {ls : List Line} (h : ∀ l ∈ ls, l.Separable) {part : List Char}
    (hpart : '\n' ∉ part) : records (stream ls ++ part) = ls.map Line.fields := by
  induction ls with
  | nil =>
    rw [records,stream,List.flatMap_nil,List.nil_append,List.splitOn_eq_singleton hpart]
    rfl
  | cons l ls ih =>
    obtain ⟨record,htext,hnl,hsplit⟩ := (h l (by simp)).record
    have hi := ih fun x hx => h x (by simp [hx])
    have hstream : stream (l :: ls) ++ part = record ++ '\n' :: (stream ls ++ part) := by
      simp [stream,htext]
    unfold records at hi ⊢
    rw [hstream,List.splitOn_append_cons_self_of_not_mem hnl,
      List.dropLast_cons_of_ne_nil (List.splitOn_ne_nil _ _),List.map_cons,hi,hsplit]
    rfl

theorem Line.Mapped.newline_mem {l : Line} (h : l.Mapped) : '\n' ∈ l.bytes.map byteChar := by
  obtain ⟨record,htext,_⟩ := h.separable.record
  simp [h.bytes_text,htext]

/-- A line is ended by its only newline, so a cut line has none. -/
theorem Line.Mapped.cut_no_newline {l : Line} (h : l.Mapped) {part : List UInt8}
    (hpre : part <+: l.bytes) (hproper : part = [] ∨ part ≠ l.bytes) :
    '\n' ∉ part.map byteChar := by
  obtain ⟨record,htext,hnl,_⟩ := h.separable.record
  obtain ⟨rest,hrest⟩ := hpre
  have hchars : part.map byteChar ++ rest.map byteChar = record ++ ['\n'] := by
    rw [← List.map_append,hrest,h.bytes_text,htext]
  rcases List.append_eq_append_iff.mp hchars with ⟨u,hu,_⟩ | ⟨u,hu,htail⟩
  · intro hmem
    exact hnl (hu ▸ List.mem_append_left u hmem)
  · -- the newline itself was taken: then the whole line was
    cases u with
    | nil =>
      rw [List.append_nil] at hu
      rw [hu]
      exact hnl
    | cons x u =>
      have hnil : rest = [] := by
        have hlen := congrArg List.length htail
        simp only [List.length_append,List.length_cons,List.length_nil,List.length_map] at hlen
        exact List.eq_nil_of_length_eq_zero (by omega)
      rw [hnil,List.append_nil] at hrest
      rcases hproper with hempty | hne
      · simp [hempty]
      · exact absurd hrest hne

end Ceclircd
