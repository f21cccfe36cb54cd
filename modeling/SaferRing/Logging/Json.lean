import SaferRing.Library.Json.Objects
import SaferRing.Logging

/-!
# Logging as JSON

An entry is written as JSON without a loss (`SaferRing.LogEntry.Lossless`) when it is one line, an
object, and its fields are recovered from the object. In the message and in the values of the
metadata quotes are escaped and nothing else, and in the component and the names of the metadata
nothing is. So an entry is written without a loss just when there is nothing more to escape
(`SaferRing.LogEntry.Clean`): `SaferRing.LogEntry.lossless_iff`.
-/

namespace SaferRing

open Json

namespace LogEntry

/-! ### What is recovered -/

/-- The values an object has under a name. -/
def named (name : String) (members : List (List Char × Value)) : List Value :=
  (members.filter fun m => m.1 = name.toList).map Prod.snd

/-- The metadata, as characters. -/
def metadataPairs (self : LogEntry) : List (List Char × List Char) :=
  self.metadata.entries.map fun e => (e.1.toList, e.2.toList)

/-- **The fields of an entry are recovered** from an object: each is there once, or is not there if
it is none. The metadata may come in any order, and no metadata is not there at all. -/
structure Recovered (entry : LogEntry) (members : List (List Char × Value)) : Prop where
  /-- The component. -/
  component : named "component" members = [.string entry.component.toList]
  /-- The message. -/
  message : named "message" members = [.string entry.message.toList]
  /-- The operation. -/
  operationId : (named "operation_id" members).map Value.asInt =
    (entry.operationId.map fun opId : ℕ => some (opId : ℤ)).toList
  /-- The descriptor. -/
  fd : (named "fd" members).map Value.asInt = (entry.fd.map some).toList
  /-- The metadata. -/
  metadata : ∃ inner, (named "metadata" members = [.object inner] ∨
    named "metadata" members = [] ∧ inner = []) ∧ inner.Perm (pairMembers entry.metadataPairs)

/-- **An entry is written as JSON without a loss**: in one line, which is an object the fields are
recovered from. -/
def Lossless (self : LogEntry) : Prop :=
  '\n' ∉ self.formatJson.toList ∧
    ∃ members, Reads self.formatJson.toList (.object members) ∧ self.Recovered members

/-- **There is nothing to escape** in an entry but quotes, and those only in its message and in the
values of its metadata. -/
structure Clean (entry : LogEntry) : Prop where
  /-- Nothing is escaped in the component. -/
  component : Plain entry.component.toList
  /-- Nor is there a quote in it. -/
  quote : '"' ∉ entry.component.toList
  /-- Nothing but quotes is escaped in the message. -/
  message : Plain entry.message.toList
  /-- The same for the metadata. -/
  metadata : ∀ p ∈ entry.metadataPairs, CleanPair p

/-! ### The text -/

/-- A member that is a number, behind a comma, if there is one. -/
def numberText (name : String) (number : Option ℤ) : List Char :=
  number.elim [] fun i => ',' :: ('"' :: name.toList ++ '"' :: ':' :: (toString i).toList)

/-- What is written of the metadata, and of the end of an entry. -/
def metadataText (self : LogEntry) : List Char :=
  if self.metadata.entries = [] then ['}']
  else ',' :: ('"' :: "metadata".toList ++ '"' :: ':' :: '{' ::
    (writePairs self.metadataPairs ++ '}' :: ['}']))

/-- What is written behind the message. -/
def behindMessage (self : LogEntry) : List Char :=
  numberText "operation_id" (self.operationId.map Int.ofNat) ++ (numberText "fd" self.fd ++
    (numberText "duration_us" (self.duration.map fun d => (d.asMicros : ℤ)) ++
      self.metadataText))

/-- What is written behind the component. -/
def behindComponent (self : LogEntry) : List Char :=
  ',' :: ('"' :: "message".toList ++ '"' :: ':' :: '"' ::
    (Json.escapeQuotes self.message.toList ++ '"' :: self.behindMessage))

section Text

variable {entry : LogEntry} {members : List (List Char × Value)} {name : String}
  {text : List Char} {x : List Char} {l : List (List Char)} {i : ℤ}

theorem intercalate_comma : [','].intercalate (x :: l) = x ++ l.flatMap (',' :: ·) := by
  induction l generalizing x with
  | nil => rw [List.intercalate_singleton, List.flatMap_nil, List.append_nil]
  | cons y l ih =>
    rw [List.intercalate_cons_cons, ih, List.flatMap_cons, List.append_assoc, List.singleton_append,
      List.cons_append]

theorem toList_escapeQuotes (s : String) :
    (LogEntry.escapeQuotes s).toList = Json.escapeQuotes s.toList := by
  rw [LogEntry.escapeQuotes, String.toList_ofList]
  rfl

/-- The parts that are numbers, if there are any. -/
theorem flatMap_numbers {α : Type*} (name : String) (o : Option α) {f : α → String} {g : α → ℤ}
    (h : ∀ a, (f a).toList = '"' :: name.toList ++ '"' :: ':' :: (toString (g a)).toList) :
    ((o.map f).toList.map String.toList).flatMap (',' :: ·) = numberText name (o.map g) := by
  rcases o with _ | a
  · rfl
  · change ',' :: (f a).toList ++ [] = ',' :: _
    rw [List.append_nil, h]

/-- A pair of the metadata. -/
theorem toList_pair (key value : String) :
    (s!"\"{key}\":\"{escapeQuotes value}\"").toList = writePair (key.toList, value.toList) := by
  rw [String.toList_append, String.toList_append, String.toList_append, String.toList_append,
    writePair, ← toList_escapeQuotes]
  simp only [List.append_assoc]
  rfl

/-- The part that is the metadata, and the end. -/
theorem flatMap_metadata (entry : LogEntry) :
    (List.map String.toList
      (if entry.metadata.entries = [] then []
        else ["\"metadata\":\x7b" ++ ",".intercalate
          (entry.metadata.entries.map fun e => s!"\"{e.1}\":\"{escapeQuotes e.2}\"") ++
            "\x7d"])).flatMap (',' :: ·) ++ ['}'] = entry.metadataText := by
  rw [metadataText]
  by_cases hnil : entry.metadata.entries = []
  · rw [if_pos hnil, if_pos hnil]
    rfl
  · have hcomma : ",".toList = [','] := rfl
    rw [if_neg hnil, if_neg hnil, List.map_singleton, List.flatMap_singleton, String.toList_append,
      String.toList_append, String.toList_intercalate, hcomma, List.map_map, writePairs,
      metadataPairs, List.map_map]
    have hpairs : String.toList ∘ (fun e : (_ : String) × String =>
        s!"\"{e.1}\":\"{escapeQuotes e.2}\"") =
          writePair ∘ fun e : (_ : String) × String => (e.1.toList, e.2.toList) :=
      funext fun e => toList_pair e.1 e.2
    rw [hpairs]
    simp only [List.cons_append, List.append_assoc]
    rfl

/-- **The text of an entry.** -/
theorem toList_formatJson (entry : LogEntry) :
    entry.formatJson.toList = '{' :: ('"' :: "timestamp".toList ++ '"' :: ':' ::
      ((toString (entry.timestampMillis : ℤ)).toList ++
        ',' :: ('"' :: "level".toList ++ '"' :: ':' :: '"' ::
          (entry.level.name.toList ++ '"' ::
            ',' :: ('"' :: "component".toList ++ '"' :: ':' :: '"' ::
              (entry.component.toList ++ '"' :: entry.behindComponent)))))) := by
  have hcomma : ",".toList = [','] := rfl
  -- the parts there may be
  have hop := flatMap_numbers "operation_id" entry.operationId (g := Int.ofNat)
    (f := fun opId => s!"\"operation_id\":{opId}") fun opId => String.toList_append
  have hfd := flatMap_numbers "fd" entry.fd (g := id) (f := fun fd => s!"\"fd\":{fd}")
    fun fd => String.toList_append
  have hduration := flatMap_numbers "duration_us" entry.duration
    (g := fun d => (d.asMicros : ℤ)) (f := fun d => s!"\"duration_us\":{d.asMicros}")
    fun d => String.toList_append
  have hmetadata := flatMap_metadata entry
  rw [formatJson, jsonParts, String.toList_append, String.toList_append, String.toList_intercalate,
    hcomma]
  simp only [List.cons_append, List.nil_append, List.map_cons, intercalate_comma, List.map_append,
    List.flatMap_append, List.flatMap_cons, hop, hfd, hduration, List.append_assoc]
  have hend : "\x7d".toList = ['}'] := rfl
  rw [hend, hmetadata, Option.map_id_fun, id, String.toList_append, String.toList_append,
    String.toList_append, String.toList_append, String.toList_append, String.toList_append,
    String.toList_append]
  simp only [List.append_assoc, behindComponent, behindMessage, ← toList_escapeQuotes]
  rfl

end Text

/-! ### The members -/

/-- The member that is a number, if there is one. -/
def numberMembers (name : String) (number : Option ℤ) : List (List Char × Value) :=
  (number.map fun i => (name.toList, Value.number (toString i).toList)).toList

section Members

variable {entry : LogEntry} {members members' : List (List Char × Value)} {name name' : String}
  {text : List Char} {v : Value} {number : Option ℤ} {i : ℤ}

theorem named_cons_self :
    named name ((name.toList, v) :: members) = v :: named name members := by
  rw [named, List.filter_cons_of_pos (by simp)]
  rfl

theorem named_cons_of_ne (h : name' ≠ name) :
    named name ((name'.toList, v) :: members) = named name members := by
  rw [named, List.filter_cons_of_neg (by simpa [String.toList_inj] using h)]
  rfl

/-- What is not among the first four members is behind them. -/
theorem named_behind {timestamp level component message : Value} (htimestamp : "timestamp" ≠ name)
    (hlevel : "level" ≠ name) (hcomponent : "component" ≠ name) (hmessage : "message" ≠ name) :
    named name (("timestamp".toList, timestamp) :: ("level".toList, level) ::
      ("component".toList, component) :: ("message".toList, message) :: members) =
        named name members := by
  rw [named_cons_of_ne htimestamp, named_cons_of_ne hlevel, named_cons_of_ne hcomponent,
    named_cons_of_ne hmessage]

theorem named_append :
    named name (members ++ members') = named name members ++ named name members' := by
  rw [named, List.filter_append, List.map_append]
  rfl

/-- A number is recovered. -/
theorem asInt_numberMembers :
    (named name (numberMembers name number)).map Value.asInt = (number.map some).toList := by
  rcases number with _ | i
  · rfl
  · change (named name [(name.toList, _)]).map Value.asInt = [some i]
    rw [named_cons_self, List.map_cons, asInt_toString]
    rfl

theorem named_numberMembers (h : name' ≠ name) : named name (numberMembers name' number) = [] := by
  rcases number with _ | i
  · rfl
  · exact named_cons_of_ne h

/-- A number that may be there is read, as far as it goes. -/
theorem tail_numberText (hplain : Plain name.toList) (hquote : '"' ∉ name.toList)
    (htext : ∀ c, text.head? = some c → ¬isNumberChar c) :
    Tail (numberText name number ++ text) members ↔
      ∃ members', members = numberMembers name number ++ members' ∧ Tail text members' := by
  rcases number with _ | i
  · constructor
    · exact fun h => ⟨members, rfl, h⟩
    · rintro ⟨members', rfl, htail⟩
      exact htail
  · have hcons : numberText name (some i) ++ text =
        ',' :: ('"' :: name.toList ++ '"' :: ':' :: ((toString i).toList ++ text)) := by
      simp [numberText]
    rw [hcons, tail_name hplain hquote]
    constructor
    · rintro ⟨w, members', rfl, hbehind⟩
      obtain ⟨rfl, htail⟩ :=
        (behind_number (isNumber_toString i) (isNumberChar_toString i) htext).mp hbehind
      exact ⟨members', rfl, htail⟩
    · rintro ⟨members', rfl, htail⟩
      exact ⟨_, members', rfl,
        (behind_number (isNumber_toString i) (isNumberChar_toString i) htext).mpr ⟨rfl, htail⟩⟩

/-- No number goes on behind the numbers. -/
theorem head_numberText (htext : ∀ c, text.head? = some c → ¬isNumberChar c) (c : Char)
    (hc : (numberText name number ++ text).head? = some c) : ¬isNumberChar c := by
  rcases number with _ | i
  · exact htext c hc
  · obtain rfl := Option.some.inj hc
    decide

theorem head_metadataText (c : Char) (hc : entry.metadataText.head? = some c) :
    ¬isNumberChar c := by
  rw [metadataText] at hc
  split at hc
  all_goals
    obtain rfl := Option.some.inj hc
    decide

/-- **What is read of an entry** up to its component. -/
theorem reads_formatJson :
    Reads entry.formatJson.toList (.object members) ↔ ∃ raw rest members',
      members = ("timestamp".toList, .number (toString (entry.timestampMillis : ℤ)).toList) ::
        ("level".toList, .string entry.level.name.toList) ::
          ("component".toList, .string raw) :: members' ∧
      readString (entry.component.toList ++ '"' :: entry.behindComponent) = some (raw, rest) ∧
      Tail rest members' := by
  have hlevel : Plain entry.level.name.toList ∧ '"' ∉ entry.level.name.toList := by
    cases entry.level <;> decide
  have hcomma : ∀ c, (',' :: ('"' :: "level".toList ++ '"' :: ':' :: '"' ::
      (entry.level.name.toList ++ '"' :: ',' :: ('"' :: "component".toList ++ '"' :: ':' :: '"' ::
        (entry.component.toList ++ '"' :: entry.behindComponent))))).head? = some c →
          ¬isNumberChar c := by
    rintro c hc
    obtain rfl := Option.some.inj hc
    decide
  have hnumber := isNumber_toString (entry.timestampMillis : ℤ)
  have hchars := isNumberChar_toString (entry.timestampMillis : ℤ)
  rw [toList_formatJson, reads_name (by decide) (by decide)]
  constructor
  · rintro ⟨w, members₁, hmembers, htimestamp⟩
    obtain rfl := Value.object.inj hmembers
    obtain ⟨rfl, hafter⟩ := (behind_number hnumber hchars hcomma).mp htimestamp
    obtain ⟨level, members₂, rfl, hlevelText⟩ := (tail_name (by decide) (by decide)).mp hafter
    obtain ⟨rfl, hcomponent⟩ := (behind_plain hlevel.1 hlevel.2).mp hlevelText
    obtain ⟨component, members₃, rfl, hbehind⟩ :=
      (tail_name (by decide) (by decide)).mp hcomponent
    obtain ⟨raw, rest, hraw, rfl, htail⟩ := behind_string.mp hbehind
    exact ⟨raw, rest, members₃, rfl, hraw, htail⟩
  · rintro ⟨raw, rest, members', rfl, hraw, htail⟩
    refine ⟨_, _, rfl, (behind_number hnumber hchars hcomma).mpr ⟨rfl, ?_⟩⟩
    refine (tail_name (by decide) (by decide)).mpr ⟨_, _, rfl, ?_⟩
    refine (behind_plain hlevel.1 hlevel.2).mpr ⟨rfl, ?_⟩
    refine (tail_name (by decide) (by decide)).mpr ⟨_, _, rfl, ?_⟩
    exact behind_string.mpr ⟨raw, rest, hraw, rfl, htail⟩

/-- **What is read of the message.** -/
theorem tail_behindComponent :
    Tail entry.behindComponent members ↔ ∃ raw rest members',
      members = ("message".toList, .string raw) :: members' ∧
      readString (Json.escapeQuotes entry.message.toList ++ '"' :: entry.behindMessage) =
        some (raw, rest) ∧ Tail rest members' := by
  rw [behindComponent, tail_name (by decide) (by decide)]
  constructor
  · rintro ⟨w, members', rfl, hbehind⟩
    obtain ⟨raw, rest, hraw, rfl, htail⟩ := behind_string.mp hbehind
    exact ⟨raw, rest, members', rfl, hraw, htail⟩
  · rintro ⟨raw, rest, members', rfl, hraw, htail⟩
    exact ⟨_, members', rfl, behind_string.mpr ⟨raw, rest, hraw, rfl, htail⟩⟩

/-- The members that are numbers, behind the message. -/
def numbers (self : LogEntry) : List (List Char × Value) :=
  numberMembers "operation_id" (self.operationId.map Int.ofNat) ++
    (numberMembers "fd" self.fd ++
      numberMembers "duration_us" (self.duration.map fun d => (d.asMicros : ℤ)))

/-- **What is read behind the message.** -/
theorem tail_behindMessage :
    Tail entry.behindMessage members ↔
      ∃ members', members = entry.numbers ++ members' ∧ Tail entry.metadataText members' := by
  rw [behindMessage, tail_numberText (by decide) (by decide)
    (head_numberText (head_numberText head_metadataText))]
  constructor
  · rintro ⟨members₁, rfl, hfd⟩
    obtain ⟨members₂, rfl, hduration⟩ := (tail_numberText (by decide) (by decide)
      (head_numberText head_metadataText)).mp hfd
    obtain ⟨members₃, rfl, htail⟩ := (tail_numberText (by decide) (by decide)
      head_metadataText).mp hduration
    exact ⟨members₃, by simp only [numbers, List.append_assoc], htail⟩
  · rintro ⟨members', rfl, htail⟩
    refine ⟨_, by rw [numbers, List.append_assoc], ?_⟩
    refine (tail_numberText (by decide) (by decide) (head_numberText head_metadataText)).mpr
      ⟨_, by rw [List.append_assoc], ?_⟩
    exact (tail_numberText (by decide) (by decide) head_metadataText).mpr ⟨_, rfl, htail⟩

/-- **What is read of the metadata**, if there is any. -/
theorem tail_metadataText (hne : entry.metadata.entries ≠ []) :
    Tail entry.metadataText members ↔ ∃ inner members',
      members = ("metadata".toList, .object inner) :: members' ∧
        lex (writePairs entry.metadataPairs ++ '}' :: ['}']) =
          some (memberTokens inner ++ moreMembers members') := by
  rw [metadataText, if_neg hne, tail_name (by decide) (by decide)]
  constructor
  · rintro ⟨w, members', rfl, hbehind⟩
    obtain ⟨inner, rfl, hlex⟩ := behind_object.mp hbehind
    exact ⟨inner, members', rfl, hlex⟩
  · rintro ⟨inner, members', rfl, hlex⟩
    exact ⟨_, members', rfl, behind_object.mpr ⟨inner, rfl, hlex⟩⟩

theorem metadataPairs_ne_nil (hne : entry.metadata.entries ≠ []) : entry.metadataPairs ≠ [] :=
  fun h => hne (List.map_eq_nil_iff.mp h)

/-- A field whose value is read is the one that is recovered. -/
theorem eq_of_named {w : Value} (h : named name ((name.toList, v) :: members) = [w]) : v = w := by
  rw [named_cons_self] at h
  exact (List.cons.inj h).1

theorem named_numbers (hop : "operation_id" ≠ name) (hfd : "fd" ≠ name)
    (hduration : "duration_us" ≠ name) : named name entry.numbers = [] := by
  rw [numbers, named_append, named_append, named_numberMembers hop, named_numberMembers hfd,
    named_numberMembers hduration]
  rfl

/-- **What is recovered had nothing to escape** but quotes, and those only where they are
escaped. -/
theorem clean_of_recovered (hreads : Reads entry.formatJson.toList (.object members))
    (h : entry.Recovered members) : entry.Clean := by
  -- the component is what was read in its place
  obtain ⟨component, rest, members₁, rfl, hread, htail⟩ := reads_formatJson.mp hreads
  have hcomponent := h.component
  rw [named_cons_of_ne (by decide), named_cons_of_ne (by decide)] at hcomponent
  obtain rfl := Value.string.inj (eq_of_named hcomponent)
  obtain ⟨hplain, hquote, rfl⟩ := plain_of_readString_raw hread
  -- and so is the message
  obtain ⟨message, rest, members₂, rfl, hreadMessage, hafter⟩ := tail_behindComponent.mp htail
  have hmessage := h.message
  rw [named_cons_of_ne (by decide), named_cons_of_ne (by decide), named_cons_of_ne (by decide)]
    at hmessage
  obtain rfl := Value.string.inj (eq_of_named hmessage)
  obtain ⟨hplain', rfl⟩ := plain_of_readString_escaped hreadMessage
  refine ⟨hplain, hquote, hplain', ?_⟩
  obtain ⟨members₃, rfl, hmetadata⟩ := tail_behindMessage.mp hafter
  by_cases hnil : entry.metadata.entries = []
  · rw [metadataPairs, hnil]
    exact List.forall_mem_nil _
  -- and the metadata are what was read in their place, but for the order
  obtain ⟨inner, members₄, rfl, hlex⟩ := (tail_metadataText hnil).mp hmetadata
  obtain ⟨inner', hnamed, hperm⟩ := h.metadata
  rw [named_behind (by decide) (by decide) (by decide) (by decide), named_append,
    named_numbers (by decide) (by decide) (by decide), List.nil_append] at hnamed
  rcases hnamed with hnamed | ⟨hnone, -⟩
  · obtain rfl := Value.object.inj (eq_of_named hnamed)
    exact cleanPair_of_lex (metadataPairs_ne_nil hnil) hlex hperm
  · rw [named_cons_self] at hnone
    exact absurd hnone (List.cons_ne_nil _ _)

/-- The member that is the metadata, if there are any. -/
def metadataMembers (self : LogEntry) : List (List Char × Value) :=
  if self.metadata.entries = [] then []
  else [("metadata".toList, .object (pairMembers self.metadataPairs))]

theorem named_metadataMembers (h : "metadata" ≠ name) :
    named name entry.metadataMembers = [] := by
  rw [metadataMembers]
  split
  · rfl
  · exact named_cons_of_ne h

/-- The members an entry is written as. -/
def jsonMembers (self : LogEntry) : List (List Char × Value) :=
  ("timestamp".toList, .number (toString (self.timestampMillis : ℤ)).toList) ::
    ("level".toList, .string self.level.name.toList) ::
      ("component".toList, .string self.component.toList) ::
        ("message".toList, .string self.message.toList) ::
          (self.numbers ++ self.metadataMembers)

/-- **An entry with nothing to escape** but quotes where they are escaped is read back. -/
theorem reads_jsonMembers (h : entry.Clean) :
    Reads entry.formatJson.toList (.object entry.jsonMembers) := by
  have hcomponent : readString (entry.component.toList ++ '"' :: entry.behindComponent) =
      some (entry.component.toList, entry.behindComponent) := by
    rw [← readString_escaped h.component, escapeQuotes_of_not_mem h.quote]
  refine reads_formatJson.mpr ⟨_, _, _, rfl, hcomponent, ?_⟩
  refine tail_behindComponent.mpr ⟨_, _, _, rfl, readString_escaped h.message, ?_⟩
  refine tail_behindMessage.mpr ⟨_, rfl, ?_⟩
  by_cases hnil : entry.metadata.entries = []
  · rw [metadataMembers, if_pos hnil, metadataText, if_pos hnil]
    exact tail_end.mpr rfl
  · rw [metadataMembers, if_neg hnil]
    refine (tail_metadataText hnil).mpr ⟨_, _, rfl, ?_⟩
    rw [lex_writePairs (metadataPairs_ne_nil hnil) h.metadata, tail_end.mpr rfl]
    rfl

/-- **All fields are recovered** from the members an entry is written as. -/
theorem recovered_jsonMembers : entry.Recovered entry.jsonMembers := by
  have hnumbers : ∀ {name}, "timestamp" ≠ name → "level" ≠ name → "component" ≠ name →
      "message" ≠ name → "metadata" ≠ name →
        named name entry.jsonMembers = named name entry.numbers := by
    intro name htimestamp hlevel hcomponent hmessage hmetadata
    rw [jsonMembers, named_behind htimestamp hlevel hcomponent hmessage, named_append,
      named_metadataMembers hmetadata, List.append_nil]
  constructor
  · rw [jsonMembers, named_cons_of_ne (by decide), named_cons_of_ne (by decide), named_cons_self,
      named_cons_of_ne (by decide), named_append, named_metadataMembers (by decide),
      named_numbers (by decide) (by decide) (by decide)]
    rfl
  · rw [jsonMembers, named_cons_of_ne (by decide), named_cons_of_ne (by decide),
      named_cons_of_ne (by decide), named_cons_self, named_append,
      named_metadataMembers (by decide), named_numbers (by decide) (by decide) (by decide)]
    rfl
  · have hfd : "fd" ≠ "operation_id" := by decide
    have hduration : "duration_us" ≠ "operation_id" := by decide
    rw [hnumbers (by decide) (by decide) (by decide) (by decide) (by decide), numbers,
      named_append, named_append, named_numberMembers hfd, named_numberMembers hduration,
      List.append_nil, List.append_nil, asInt_numberMembers, Option.map_map]
    rfl
  · have hop : "operation_id" ≠ "fd" := by decide
    have hduration : "duration_us" ≠ "fd" := by decide
    rw [hnumbers (by decide) (by decide) (by decide) (by decide) (by decide), numbers,
      named_append, named_append, named_numberMembers hop, named_numberMembers hduration,
      List.append_nil, List.nil_append, asInt_numberMembers]
  · refine ⟨pairMembers entry.metadataPairs, ?_, List.Perm.refl _⟩
    rw [jsonMembers, named_behind (by decide) (by decide) (by decide) (by decide), named_append,
      named_numbers (by decide) (by decide) (by decide), List.nil_append, metadataMembers]
    by_cases hnil : entry.metadata.entries = []
    · rw [if_pos hnil, metadataPairs, hnil]
      exact Or.inr ⟨rfl, rfl⟩
    · rw [if_neg hnil, named_cons_self]
      exact Or.inl rfl

/-! ### One line -/

theorem newline_not_mem_repr : '\n' ∉ i.repr.toList :=
  fun h => absurd (isNumberChar_toString i _ h) (by decide)

theorem newline_not_mem_numberText (hname : '\n' ∉ name.toList) :
    '\n' ∉ numberText name number := by
  rcases number with _ | i
  · exact List.not_mem_nil
  · simp [numberText, hname, newline_not_mem_repr]

theorem newline_not_mem_metadataText (hclean : ∀ p ∈ entry.metadataPairs, CleanPair p) :
    '\n' ∉ entry.metadataText := by
  rw [metadataText]
  split
  · decide
  · simp [newline_not_mem_writePairs hclean]

/-- **An entry with nothing to escape** but quotes is written in one line. -/
theorem newline_not_mem_formatJson (h : entry.Clean) : '\n' ∉ entry.formatJson.toList := by
  have hlevel : '\n' ∉ entry.level.name.toList := by
    cases entry.level <;> decide
  have hcomponent := newline_not_mem h.component
  rw [escapeQuotes_of_not_mem h.quote] at hcomponent
  have hafter : '\n' ∉ entry.behindMessage := by
    rw [behindMessage, List.mem_append, List.mem_append, List.mem_append, not_or, not_or, not_or]
    exact ⟨newline_not_mem_numberText (by decide), newline_not_mem_numberText (by decide),
      newline_not_mem_numberText (by decide), newline_not_mem_metadataText h.metadata⟩
  have hmessage : '\n' ∉ entry.behindComponent := by
    simp [behindComponent, newline_not_mem h.message, hafter]
  rw [toList_formatJson]
  simp [hlevel, hcomponent, hmessage, newline_not_mem_repr]

/-- **An entry is written as JSON without a loss** just when there is nothing to escape in it but
quotes, and those only in its message and in the values of its metadata. -/
theorem lossless_iff (entry : LogEntry) : entry.Lossless ↔ entry.Clean := by
  constructor
  · rintro ⟨-, members, hreads, hrecovered⟩
    exact clean_of_recovered hreads hrecovered
  · intro h
    exact ⟨newline_not_mem_formatJson h, _, reads_jsonMembers h, recovered_jsonMembers⟩

/-- A path is written as it is, and its backslash is taken for an escape. -/
theorem not_lossless_path :
    ¬(LogEntry.new 1700000000000000000 .info "ring" "C:\\new").Lossless := by
  rintro ⟨-, members, hreads, hrecovered⟩
  exact absurd (clean_of_recovered hreads hrecovered).message (by decide)

/-- It is read back as two lines. -/
example :
    readString (Json.escapeQuotes "C:\\new".toList ++ ['"']) = some ("C:\new".toList, []) := by
  decide

/-- **Whatever is read** of an entry that is written without a loss has all its fields. -/
theorem Lossless.recovered (h : entry.Lossless)
    (hreads : Reads entry.formatJson.toList (.object members)) : entry.Recovered members := by
  obtain ⟨-, members', hreads', hrecovered⟩ := h
  obtain rfl := Value.object.inj (hreads.unique hreads')
  exact hrecovered

end Members

end LogEntry

end SaferRing
