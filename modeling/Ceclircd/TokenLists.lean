import Ceclircd.InputStream
set_option autoImplicit false

/-! One extraction after another from the same stream, over a text of tokens with whitespace
between them. -/

namespace InputStream

/-- A token of such a text: the whitespace in front of it, what it is read into, and the value
that it is to give. -/
structure Entry (α β : Type) where
  gap : List Char
  token : Token
  before : α
  value : β

def textOf {α β : Type} : List (Entry α β) → List Char → List Char
  | [], tail => tail
  | e :: es, tail => e.gap ++ (e.token.text ++ textOf es tail)

structure Separated {α β : Type} (es : List (Entry α β)) : Prop where
  blank : ∀ e ∈ es, ∀ c ∈ e.gap, isSpace c = true
  apart : ∀ e ∈ es.tail, e.gap ≠ []

/-- `none` if one of the extractions fails. -/
def extractAll {α β : Type} (extract : IStream → α → Option (IStream × β)) :
    IStream → List α → Option (IStream × List β)
  | s, [] => some (s,[])
  | s, a :: as => do
    let (s,b) ← extract s a
    if s.fail then none
    else
      let (s,bs) ← extractAll extract s as
      some (s,b :: bs)

section
variable {α β : Type}

theorem Separated.tail {e : Entry α β} {es : List (Entry α β)} (h : Separated (e :: es)) :
    Separated es :=
  ⟨fun x hx => h.blank x (List.mem_cons_of_mem _ hx),
    fun x hx => h.apart x (List.mem_of_mem_tail hx)⟩

theorem Separated.head_textOf {e : Entry α β} {es : List (Entry α β)}
    (h : Separated (e :: es)) {tail : List Char} (ht : ∀ c ∈ tail, isSpace c = true) :
    ∀ c ∈ (textOf es tail).head?, isSpace c = true := by
  intro c hc
  cases es with
  | nil => exact ht c (List.mem_of_mem_head? hc)
  | cons f es =>
    obtain ⟨d,ds,hgap⟩ := List.exists_cons_of_ne_nil (h.apart f (by simp))
    rw [textOf,hgap,List.cons_append,List.head?_cons] at hc
    obtain rfl := Option.some.inj hc
    exact h.blank f (by simp) d (by rw [hgap]; exact List.mem_cons_self)

theorem Separated.stoppedAt_textOf {e f : Entry α β} {es : List (Entry α β)}
    (h : Separated (e :: f :: es)) (tail : List Char) :
    IStream.stoppedAt (textOf (f :: es) tail) = .ofChars (textOf (f :: es) tail) := by
  obtain ⟨d,ds,hgap⟩ := List.exists_cons_of_ne_nil (h.apart f (by simp))
  rw [textOf,hgap]
  rfl

variable {extract : IStream → α → Option (IStream × β)}

theorem extractAll_cons {s t : IStream} {a : α} {b : β} (h : extract s a = some (t,b))
    (hok : t.fail = false) (as : List α) : extractAll extract s (a :: as) =
      (extractAll extract t as).map fun r => (r.1,b :: r.2) := by
  rw [extractAll,h]
  cases hrest : extractAll extract t as <;> simp [hok,hrest]

theorem extractAll_fails {s t : IStream} {a : α} {b : β} (h : extract s a = some (t,b))
    (hbad : t.fail = true) (as : List α) : extractAll extract s (a :: as) = none := by
  rw [extractAll,h]
  simp [hbad]

def IStream.behind (es : List (Entry α β)) (tail : List Char) : IStream :=
  if es.isEmpty then .ofChars tail else .stoppedAt tail

theorem extractAll_textOf {es : List (Entry α β)} {tail : List Char} (h : Separated es)
    (ht : ∀ c ∈ tail, isSpace c = true)
    (hread : ∀ e ∈ es, ∀ after, (∀ c ∈ after.head?, isSpace c = true) →
      extract (.ofChars (e.gap ++ (e.token.text ++ after))) e.before =
        some (.stoppedAt after,e.value)) :
    extractAll extract (.ofChars (textOf es tail)) (es.map Entry.before) =
      some (.behind es tail,es.map Entry.value) := by
  induction es with
  | nil => rfl
  | cons e es ih =>
    have hrest := ih h.tail fun f hf => hread f (List.mem_cons_of_mem _ hf)
    have hfirst := hread e List.mem_cons_self _ (h.head_textOf ht)
    rw [List.map_cons,textOf,extractAll_cons hfirst rfl]
    cases es with
    | nil => rfl
    | cons f es =>
      rw [h.stoppedAt_textOf,hrest]
      rfl

theorem extractAll_textOf_fails {es : List (Entry α β)} {tail : List Char} (h : Separated es)
    (ht : ∀ c ∈ tail, isSpace c = true) {ok : Entry α β → Prop}
    (hread : ∀ e ∈ es, ok e → ∀ after, (∀ c ∈ after.head?, isSpace c = true) →
      extract (.ofChars (e.gap ++ (e.token.text ++ after))) e.before =
        some (.stoppedAt after,e.value))
    (hrefuse : ∀ e ∈ es, ¬ ok e → ∀ after, (∀ c ∈ after.head?, isSpace c = true) →
      ∃ t b, extract (.ofChars (e.gap ++ (e.token.text ++ after))) e.before = some (t,b) ∧
        t.fail = true)
    (hbad : ∃ e ∈ es, ¬ ok e) :
    extractAll extract (.ofChars (textOf es tail)) (es.map Entry.before) = none := by
  induction es with
  | nil => simp at hbad
  | cons e es ih =>
    rw [List.map_cons,textOf]
    by_cases hok : ok e
    · have hfirst := hread e List.mem_cons_self hok _ (h.head_textOf ht)
      have hlater : ∃ f ∈ es, ¬ ok f := by
        obtain ⟨f,hf,hnot⟩ := hbad
        rcases List.mem_cons.mp hf with rfl | hf
        · exact absurd hok hnot
        · exact ⟨f,hf,hnot⟩
      have hrest := ih h.tail (fun f hf => hread f (List.mem_cons_of_mem _ hf))
        (fun f hf => hrefuse f (List.mem_cons_of_mem _ hf)) hlater
      rw [extractAll_cons hfirst rfl]
      cases es with
      | nil => simp at hlater
      | cons f es =>
        rw [h.stoppedAt_textOf,hrest]
        rfl
    · obtain ⟨t,b,hfirst,hfail⟩ := hrefuse e List.mem_cons_self hok _ (h.head_textOf ht)
      exact extractAll_fails hfirst hfail _

end

end InputStream
