import ZmqBridge.Model.Subject

/-!
# ZmqBridge — subject keys in bounds

`generateSubjectKey` moves its cursor and its count by what `snprintf` would have
written. That is right as long as the components in front of the last one fit;
once they do not, the count wraps around and the next component is printed far
outside the array.

* `joinSubject` — the subject that is meant, with a `'.'` between components;
* `KeyCursor.Behind` — where cursor and count stand after a text, and what the
  array holds of it;
* `generateSubjectKey_exact_iff` — the key is right exactly when root and source
  have at most `MAX_SUBJECT_LENGTH` bytes;
* `longSource_writes_outside` — a publisher with a longer source.
-/

namespace ZmqBridge

open Lib

-- ---------------------------------------------------------------------------
-- The subject that is meant
-- ---------------------------------------------------------------------------

/-- The text a component is appended to: a `'.'` goes in between when there is
something in front. -/
def joinComponent (text : List Byte) : Option (List Byte) → List Byte
  | none => text
  | some component => if text = [] then component else text ++ dot :: component

/-- The subject the present components stand for. -/
def joinSubject (root source topic : Option (List Byte)) : List Byte :=
  joinComponent (joinComponent (joinComponent [] root) source) topic

-- ---------------------------------------------------------------------------
-- One component
-- ---------------------------------------------------------------------------

/-- The cursor behind `text`, of which the array holds what fits; before the
first component the array holds anything. -/
structure KeyCursor.Behind (c : KeyCursor) (text : List Byte) (started : Bool) : Prop where
  nulFree : NulFree text
  pos : c.subjectPos = text.length
  remaining : text.length + c.bytesRemaining = maxSubjectLength
  wrapped : c.wrapped = false
  holds : started = true → c.subject.Holds (text.take (maxSubjectLength - 1))
  empty : started = false → text = []

theorem KeyCursor.behind_start (stack : CharArray (maxSubjectLength + 1)) :
    (KeyCursor.start stack).Behind [] false where
  nulFree := nulFree_nil
  pos := rfl
  remaining := rfl
  wrapped := rfl
  holds := fun h => by cases h
  empty := fun _ => rfl

section Component

variable {c : KeyCursor} {text component : List Byte} {started : Bool}

theorem KeyCursor.Behind.prepend (h : c.Behind text started) :
    text ++ c.prepend component = joinComponent text (some component) := by
  rw [KeyCursor.prepend, joinComponent, h.pos]
  by_cases hText : text = []
  · simp [hText]
  · simp [hText, List.length_eq_zero_iff]

theorem KeyCursor.nulFree_prepend (hComponent : NulFree component) :
    NulFree (c.prepend component) := by
  rw [KeyCursor.prepend]
  split
  · exact nulFree_cons.mpr ⟨by decide, hComponent⟩
  · exact hComponent

/-- What is printed behind the text. -/
theorem KeyCursor.Behind.printed (h : c.Behind text started) {s : List Byte}
    (hs : NulFree s) :
    ∃ a, snprintf c.subject c.subjectPos c.bytesRemaining s =
        .ok (a, printedLength s.length) ∧
      a.Holds ((text ++ s).take (maxSubjectLength - 1)) := by
  have hRemaining := h.remaining
  have hDst : text = [] ∨
      c.subject.Holds (text.take (text.length + c.bytesRemaining - 1)) := by
    rw [hRemaining]
    cases started with
    | false => exact .inl (h.empty rfl)
    | true => exact .inr (h.holds rfl)
  obtain ⟨a, hPrint, hHolds⟩ := snprintf_append h.nulFree hs
    (by rw [hRemaining]; decide) (by rw [hRemaining]; decide) hDst
  rw [hRemaining] at hHolds
  exact ⟨a, by rw [h.pos, hPrint], hHolds⟩

theorem toSizeT_printedLength {len : Nat} (h : len ≤ maxSubjectLength) :
    toSizeT (printedLength len) = len := by
  have hLen : len ≤ 256 := h
  rw [printedLength, if_pos (by omega), toSizeT]
  omega

theorem lt_toSizeT_printedLength {len n : Nat} (h : n < len) (hn : n ≤ maxSubjectLength) :
    n < toSizeT (printedLength len) := by
  have hLen : n ≤ 256 := hn
  rw [printedLength, toSizeT]
  split <;> omega

/-- Appending a text that leaves the whole within `MAX_SUBJECT_LENGTH`. -/
theorem KeyCursor.Behind.append (h : c.Behind text started) {s : List Byte}
    (hs : NulFree s) (hLen : (text ++ s).length ≤ maxSubjectLength) :
    ∃ c', c.append s = .ok c' ∧ c'.Behind (text ++ s) true := by
  obtain ⟨a, hPrint, hHolds⟩ := h.printed hs
  have hRemaining := h.remaining
  rw [List.length_append] at hLen
  have hWritten : toSizeT (printedLength s.length) = s.length :=
    toSizeT_printedLength (by omega)
  refine ⟨_, by rw [KeyCursor.append, hPrint]; rfl, ?_⟩
  have hMax : maxSubjectLength = 256 := rfl
  constructor
  · exact nulFree_append.mpr ⟨h.nulFree, hs⟩
  · simp only [hWritten, h.pos, List.length_append]
    omega
  · simp only [hWritten, List.length_append]
    omega
  · simp only [hWritten, h.wrapped, Bool.false_or, decide_eq_false_iff_not]
    omega
  · exact fun _ => hHolds
  · exact fun hFalse => by cases hFalse

/-- Appending one that does not makes `bytesRemaining` wrap around. -/
theorem KeyCursor.Behind.append_wraps (h : c.Behind text started) {s : List Byte}
    (hs : NulFree s) (hLen : maxSubjectLength < (text ++ s).length) {c' : KeyCursor}
    (hAppend : c.append s = .ok c') : c'.wrapped = true := by
  obtain ⟨a, hPrint, -⟩ := h.printed hs
  have hRemaining := h.remaining
  rw [List.length_append] at hLen
  have hWritten : c.bytesRemaining < toSizeT (printedLength s.length) :=
    lt_toSizeT_printedLength (by omega) (by omega)
  rw [KeyCursor.append, hPrint] at hAppend
  cases hAppend
  simp [hWritten]

theorem KeyCursor.append_wrapped {s : List Byte} (h : c.wrapped = true) {c' : KeyCursor}
    (hAppend : c.append s = .ok c') : c'.wrapped = true := by
  rw [KeyCursor.append] at hAppend
  cases hPrint : snprintf c.subject c.subjectPos c.bytesRemaining s with
  | error e => rw [hPrint] at hAppend; cases hAppend
  | ok r =>
    rw [hPrint] at hAppend
    cases hAppend
    simp [h]

/-- One component, if it is there. -/
def KeyCursor.stage (c : KeyCursor) : Option (List Byte) → Except Fault KeyCursor
  | none => .ok c
  | some component => c.append (c.prepend component)

theorem KeyCursor.Behind.stage (h : c.Behind text started) {o : Option (List Byte)}
    (ho : ∀ s ∈ o, NulFree s) (hLen : (joinComponent text o).length ≤ maxSubjectLength) :
    ∃ c', c.stage o = .ok c' ∧ c'.Behind (joinComponent text o) (started || o.isSome) := by
  cases o with
  | none =>
    rw [Option.isSome_none, Bool.or_false]
    exact ⟨c, rfl, h⟩
  | some component =>
    rw [← h.prepend] at hLen ⊢
    rw [Option.isSome_some, Bool.or_true]
    exact h.append (KeyCursor.nulFree_prepend (ho component rfl)) hLen

theorem KeyCursor.Behind.stage_wraps (h : c.Behind text started) {o : Option (List Byte)}
    (ho : ∀ s ∈ o, NulFree s) (hLen : maxSubjectLength < (joinComponent text o).length)
    {c' : KeyCursor} (hStage : c.stage o = .ok c') : c'.wrapped = true := by
  cases o with
  | none =>
    have hRemaining := h.remaining
    rw [joinComponent] at hLen
    omega
  | some component =>
    rw [← h.prepend] at hLen
    exact h.append_wraps (KeyCursor.nulFree_prepend (ho component rfl)) hLen hStage

theorem KeyCursor.stage_wrapped {o : Option (List Byte)} (h : c.wrapped = true)
    {c' : KeyCursor} (hStage : c.stage o = .ok c') : c'.wrapped = true := by
  cases o with
  | none => cases hStage; exact h
  | some component => exact KeyCursor.append_wrapped h hStage

end Component

-- ---------------------------------------------------------------------------
-- The whole key
-- ---------------------------------------------------------------------------

section Key

variable {stack : CharArray (maxSubjectLength + 1)} {root source topic : Option (List Byte)}

/-- The cursor in front of the topic. -/
def KeyCursor.beforeTopic (stack : CharArray (maxSubjectLength + 1))
    (root source : Option (List Byte)) : Except Fault KeyCursor := do
  let c ← (KeyCursor.start stack).stage root
  c.stage source

theorem printSubject_eq : SubscriptionImpl.printSubject stack root source topic = (do
    let c ← KeyCursor.beforeTopic stack root source
    match topic with
    | none => pure c
    | some topic => do
      let (subject, _) ← snprintf c.subject c.subjectPos c.bytesRemaining (c.prepend topic)
      pure { c with subject }) := by
  rw [KeyCursor.beforeTopic, bind_assoc]
  cases root with
  | none => cases source <;> rfl
  | some root =>
    refine congrArg (Except.bind _) (funext fun c => ?_)
    cases source <;> rfl

theorem length_le_joinComponent (text : List Byte) (o : Option (List Byte)) :
    text.length ≤ (joinComponent text o).length := by
  cases o with
  | none => exact Nat.le_refl _
  | some component =>
    rw [joinComponent]
    split
    · rename_i h
      simp [h]
    · simp

theorem beforeTopic_behind (stack : CharArray (maxSubjectLength + 1))
    (hRoot : ∀ s ∈ root, NulFree s) (hSource : ∀ s ∈ source, NulFree s)
    (hLen : (joinComponent (joinComponent [] root) source).length ≤ maxSubjectLength) :
    ∃ c, KeyCursor.beforeTopic stack root source = .ok c ∧
      c.Behind (joinComponent (joinComponent [] root) source)
        (root.isSome || source.isSome) := by
  obtain ⟨c, hStage, hBehind⟩ := (KeyCursor.behind_start stack).stage hRoot
    ((length_le_joinComponent _ source).trans hLen)
  obtain ⟨c', hStage', hBehind'⟩ := hBehind.stage hSource hLen
  rw [Bool.false_or] at hBehind'
  exact ⟨c', by rw [KeyCursor.beforeTopic, hStage]; exact hStage', hBehind'⟩

theorem beforeTopic_wraps (hRoot : ∀ s ∈ root, NulFree s) (hSource : ∀ s ∈ source, NulFree s)
    (hLen : maxSubjectLength < (joinComponent (joinComponent [] root) source).length)
    {c : KeyCursor} (h : KeyCursor.beforeTopic stack root source = .ok c) :
    c.wrapped = true := by
  have hStart := KeyCursor.behind_start stack
  obtain ⟨c', hRootStage, hSourceStage⟩ := bind_eq_ok h
  by_cases hRootLen : (joinComponent [] root).length ≤ maxSubjectLength
  · obtain ⟨d, hStage, hBehind⟩ := hStart.stage hRoot hRootLen
    rw [hStage] at hRootStage
    cases hRootStage
    exact hBehind.stage_wraps hSource hLen hSourceStage
  · exact KeyCursor.stage_wrapped (hStart.stage_wraps hRoot (by omega) hRootStage) hSourceStage

/-- The topic is the last component: its length does not matter. -/
theorem printSubject_behind {c : KeyCursor} {text : List Byte} {started : Bool}
    (hBefore : KeyCursor.beforeTopic stack root source = .ok c)
    (hBehind : c.Behind text started) (hTopic : ∀ s ∈ topic, NulFree s)
    (hSome : started = true ∨ topic.isSome = true) :
    ∃ c', SubscriptionImpl.printSubject stack root source topic = .ok c' ∧
      c'.wrapped = false ∧
      c'.subject.Holds ((joinComponent text topic).take (maxSubjectLength - 1)) := by
  rw [printSubject_eq, hBefore]
  cases topic with
  | none =>
    have hStarted : started = true := hSome.resolve_right (by simp)
    exact ⟨c, rfl, hBehind.wrapped, hBehind.holds hStarted⟩
  | some topic =>
    obtain ⟨a, hPrint, hHolds⟩ :=
      hBehind.printed (KeyCursor.nulFree_prepend (c := c) (hTopic topic rfl))
    rw [hBehind.prepend] at hHolds
    refine ⟨{ c with subject := a }, ?_, hBehind.wrapped, hHolds⟩
    show (snprintf c.subject c.subjectPos c.bytesRemaining (c.prepend topic) >>= _) = _
    rw [hPrint]
    rfl

theorem printSubject_wrapped {c : KeyCursor}
    (h : SubscriptionImpl.printSubject stack root source topic = .ok c) :
    ∃ c', KeyCursor.beforeTopic stack root source = .ok c' ∧ c.wrapped = c'.wrapped := by
  rw [printSubject_eq] at h
  obtain ⟨c', hBefore, h⟩ := bind_eq_ok h
  refine ⟨c', hBefore, ?_⟩
  cases topic with
  | none => cases h; rfl
  | some topic =>
    obtain ⟨a, -, h⟩ := bind_eq_ok h
    cases h
    rfl

/-- **What a subject key has to be**: nothing is written outside the array, the
count never wraps around, and the key is what fits of the subject. -/
def KeyExact (stack : CharArray (maxSubjectLength + 1))
    (root source topic : Option (List Byte)) : Prop :=
  ∃ c, SubscriptionImpl.printSubject stack root source topic = .ok c ∧ c.wrapped = false ∧
    SubscriptionImpl.generateSubjectKey stack root source topic true =
      .ok (some ((joinSubject root source topic).take (maxSubjectLength - 1)), .ok)

theorem keyExact_of_length_le (hRoot : ∀ s ∈ root, NulFree s)
    (hSource : ∀ s ∈ source, NulFree s) (hTopic : ∀ s ∈ topic, NulFree s)
    (hSome : root.isSome = true ∨ source.isSome = true ∨ topic.isSome = true)
    (hLen : (joinComponent (joinComponent [] root) source).length ≤ maxSubjectLength) :
    KeyExact stack root source topic := by
  obtain ⟨c, hBefore, hBehind⟩ := beforeTopic_behind stack hRoot hSource hLen
  obtain ⟨c', hPrint, hWrapped, hHolds⟩ := printSubject_behind hBefore hBehind hTopic
    (by rw [Bool.or_eq_true]; tauto)
  refine ⟨c', hPrint, hWrapped, ?_⟩
  rw [SubscriptionImpl.generateSubjectKey, hPrint]
  obtain ⟨hFree, rest, hRest⟩ := hHolds
  show (readCstr c'.subject.bytes 0 >>= _) = _
  rw [hRest, readCstr_eq, List.drop_zero, if_pos (by simp), cstr_append hFree]
  rfl

/-- A topic alone is always printed as it is meant. -/
theorem generateSubjectKey_topic {t : List Byte} (ht : NulFree t) :
    SubscriptionImpl.generateSubjectKey stack none none (some t) true =
      .ok (some (t.take (maxSubjectLength - 1)), .ok) := by
  have hExact : KeyExact stack none none (some t) :=
    keyExact_of_length_le (by simp) (by simp) (by simpa using ht) (by simp)
      (by simp [joinComponent])
  obtain ⟨c, -, -, hKey⟩ := hExact
  exact hKey

/--
**Subject keys are exact while root and source fit.** For any components, at
least one of them present, the key is the first 255 bytes of the joined
components, written inside the array and counted without wrapping around, if and
only if root and source joined have at most `MAX_SUBJECT_LENGTH` bytes. The topic
may have any length: it is the last component and nothing is counted behind it.
-/
theorem generateSubjectKey_exact_iff (hRoot : ∀ s ∈ root, NulFree s)
    (hSource : ∀ s ∈ source, NulFree s) (hTopic : ∀ s ∈ topic, NulFree s)
    (hSome : root.isSome = true ∨ source.isSome = true ∨ topic.isSome = true) :
    KeyExact stack root source topic ↔
      (joinComponent (joinComponent [] root) source).length ≤ maxSubjectLength := by
  constructor
  · -- a longer text wraps the count around, whatever happens to the array
    rintro ⟨c, hPrint, hWrapped, -⟩
    by_contra hLen
    obtain ⟨c', hBefore, hEq⟩ := printSubject_wrapped hPrint
    have hWraps := beforeTopic_wraps hRoot hSource (by omega) hBefore
    rw [hEq, hWraps] at hWrapped
    cases hWrapped
  · exact keyExact_of_length_le hRoot hSource hTopic hSome

end Key

theorem generateSubjectKey_exact_full :
    KeyExact (CharArray.zero _) none (some (List.replicate 256 0x61)) (some [0x62]) :=
  (generateSubjectKey_exact_iff (by simp) (by decide +kernel) (by decide)
    (.inr (.inl rfl))).mpr (by decide +kernel)

/-- **One byte more.** A source of 257 bytes makes the topic be printed outside
the array; a publisher with that source and topic gets there. -/
theorem longSource_writes_outside :
    let source := List.replicate 257 0x61
    SubscriptionImpl.generateSubjectKey (CharArray.zero _) none (some source) (some [0x62])
        true = .error .writeOutside ∧
      PublisherImpl.buildSendSubject (CharArray.zero _) none (some source) (some [0x62])
        true = .error .writeOutside := by
  decide +kernel

end ZmqBridge
