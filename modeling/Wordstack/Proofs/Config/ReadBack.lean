import Wordstack.Proofs.Config.Blocks

/-!
# Block style is read back

The text of a document in block style is read as the document, with blank lines and comments
anywhere between its lines.

- **Entering** (`YamlState.enter`): what a line closes and opens before it is taken itself.
- **Agreement** (`YamlState.Agrees`): a state with containers to be closed does the same as the one
  in which they are closed, on any line that may follow.
- **Blocks** (`YamlState.agrees_entries`): the lines of a map leave it, filled, in its place.
- **Texts** (`readYaml_blocks`).
-/

namespace Wordstack

namespace YamlState

/-! ## Entering -/

/-- The state once the containers are closed and opened that a line says are. -/
def enter (s : YamlState) (l : YamlLine) : YamlState :=
  let s := s.settle l
  let (top, outer) := leave l.indent l.item?.isSome s.top s.outer
  { s with top, outer }

/-- Takes a line into the innermost container. -/
def take (s : YamlState) (l : YamlLine) : YamlState :=
  match l.item? with
  | none => s.addEntry l.indent l.text
  | some rest =>
    if !s.top.isList then s
    else if (keyed? rest.text).isNone then
      { s with top := s.top.append (if rest.text.isEmpty then .null else yamlScalar rest.text) }
    else (s.openFrame ⟨rest.indent, .obj [], none⟩).addEntry rest.indent rest.text

theorem step_eq (s : YamlState) (l : YamlLine) : s.step l = (s.enter l).take l := rfl

variable {f inner : YamlFrame} {outer : List YamlFrame} {l : YamlLine} {n : Nat} {key : String}

/-- A line that is not further out than the innermost container leaves all of them open; only an
item goes on with a list. -/
theorem enter_open (hindent : f.indent ≤ l.indent)
    (hlist : f.isList = true → l.item?.isSome = true) :
    enter ⟨f, outer, none⟩ l = ⟨f, outer, none⟩ := by
  have hin : ¬ ((l.indent : Int) < f.indent) := by omega
  unfold enter settle
  cases outer with
  | nil => rfl
  | cons g outer =>
    simp only [leave]
    rw [if_neg]
    cases hf : f.isList with
    | false => simp [hin]
    | true => simp [hin, hlist hf]

/-- A line further in opens a container for the key that waits. -/
theorem enter_waiting (h : n < l.indent) :
    enter ⟨f, outer, some (key, n)⟩ l =
      ⟨⟨l.indent, if l.item?.isSome then .arr [] else .obj [], some key⟩, f :: outer, none⟩ := by
  have hsettle : settle ⟨f, outer, some (key, n)⟩ l =
      ⟨⟨l.indent, if l.item?.isSome then .arr [] else .obj [], some key⟩, f :: outer, none⟩ := by
    unfold settle
    simp [h, openFrame]
  unfold enter
  rw [hsettle]
  simp only [leave]
  rw [if_neg]
  cases l.item?.isSome with
  | true => simp
  | false => simp [YamlFrame.isList]

end YamlState

/-! ## Agreement -/

/-- A line that may come after the entries in a column. -/
structure YamlLine.Follows (l : YamlLine) (n : Nat) : Prop where
  indent_le : l.indent ≤ n
  lt_of_item : l.item?.isSome = true → l.indent < n

/-- Two states come to the same, if no line follows or one that may come after the entries in a
column. -/
structure YamlState.Agrees (n : Nat) (s s' : YamlState) : Prop where
  finish : s.finish = s'.finish
  enter : ∀ l : YamlLine, l.Follows n → s.enter l = s'.enter l

namespace YamlState

variable {f inner : YamlFrame} {outer : List YamlFrame} {l : YamlLine} {m n : Nat} {key : String}
  {s s' s'' : YamlState}

theorem Agrees.refl (n : Nat) (s : YamlState) : Agrees n s s := ⟨rfl, fun _ _ => rfl⟩

theorem Agrees.trans (h : Agrees n s s') (h' : Agrees n s' s'') : Agrees n s s'' :=
  ⟨h.finish.trans h'.finish, fun l hl => (h.enter l hl).trans (h'.enter l hl)⟩

theorem Agrees.mono (h : Agrees n s s') (hm : m ≤ n) : Agrees m s s' :=
  ⟨h.finish, fun l hl => h.enter l
    ⟨hl.indent_le.trans hm, fun hitem => Nat.lt_of_lt_of_le (hl.lt_of_item hitem) hm⟩⟩

theorem Agrees.step (h : Agrees n s s') (hl : l.Follows n) : s.step l = s'.step l := by
  rw [step_eq, step_eq, h.enter l hl]

/-- A key that is left waiting has null. -/
theorem agrees_waiting : Agrees n ⟨f, outer, some (key, n)⟩ ⟨f.setKey key .null, outer, none⟩ := by
  refine ⟨rfl, fun l hl => ?_⟩
  have hsettle : settle ⟨f, outer, some (key, n)⟩ l = ⟨f.setKey key .null, outer, none⟩ := by
    have hout : ¬ (n < l.indent ∨ l.item?.isSome = true ∧ l.indent = n) := by
      rintro (hin | ⟨hitem, heq⟩)
      · exact absurd hl.indent_le (by omega)
      · exact absurd (hl.lt_of_item hitem) (by omega)
    unfold settle
    simp [hout]
  unfold enter
  rw [hsettle]
  rfl

/-- A container further in is closed. -/
theorem agrees_closed (h : (n : Int) < inner.indent) :
    Agrees n ⟨inner, f :: outer, none⟩ ⟨f.absorb inner, outer, none⟩ := by
  refine ⟨rfl, fun l hl => ?_⟩
  have hout : (l.indent : Int) < inner.indent := by
    have := hl.indent_le
    omega
  unfold enter settle
  simp only [leave]
  rw [if_pos (by simp [hout])]

end YamlState

/-! ## Blocks -/

namespace YamlFrame

/-- Sets keys of the container in order. -/
def setKeys (f : YamlFrame) (fields : List (String × Json)) : YamlFrame :=
  fields.foldl (fun f kv => f.setKey kv.1 kv.2) f

/-- Appends to the container in order. -/
def appendAll (f : YamlFrame) (items : List Json) : YamlFrame := items.foldl append f

variable {f : YamlFrame}

theorem indent_setKey (key : String) (x : Json) : (f.setKey key x).indent = f.indent := rfl

theorem isList_setKey (key : String) (x : Json) : (f.setKey key x).isList = f.isList := by
  unfold setKey setYamlKey isList
  cases f.value with
  | obj fields => by_cases h : (key == "__proto__") = true <;> simp [h]
  | _ => rfl

theorem indent_append (x : Json) : (f.append x).indent = f.indent := by
  unfold append
  split <;> rfl

theorem isList_append (x : Json) : (f.append x).isList = f.isList := by
  unfold append isList
  cases hvalue : f.value <;> simp [hvalue]

theorem appendAll_arr (indent : Int) (key : Option String) (items more : List Json) :
    appendAll ⟨indent, .arr items, key⟩ more = ⟨indent, .arr (items ++ more), key⟩ := by
  induction more generalizing items with
  | nil => simp [appendAll]
  | cons x more ih =>
    have hstep := ih (items ++ [x])
    rw [List.append_assoc] at hstep
    exact hstep

end YamlFrame

namespace Block

theorem Key.name_ne_proto (key : Key) : (key.name == "__proto__") = false := by
  rw [beq_eq_false_iff_ne]
  intro h
  have hchars : key.text = '_' :: ['_', 'p', 'r', 'o', 't', 'o', '_', '_'] := String.ofList_inj.mp h
  exact key.first_ne (c := '_') rfl (List.cons.inj hchars).1

variable {indent : Int} {key : Option String} {fields : List (String × Json)}

/-- A key that is not there yet is set behind the others. -/
theorem Key.setKey_obj (k : Key) (x : Json) (hk : k.name ∉ fields.map (·.1)) :
    YamlFrame.setKey ⟨indent, .obj fields, key⟩ k.name x =
      ⟨indent, .obj (fields ++ [(k.name, x)]), key⟩ := by
  rw [YamlFrame.setKey, setYamlKey, k.name_ne_proto, if_neg Bool.false_ne_true,
    Json.setField_of_notMem x hk]

theorem Entries.setKeys_obj (entries : Block.Entries) (hd : entries.Distinct)
    (fields : List (String × Json))
    (hnew : ∀ k ∈ entries.fields.map (·.1), k ∉ fields.map (·.1)) :
    YamlFrame.setKeys ⟨indent, .obj fields, key⟩ entries.fields =
      ⟨indent, .obj (fields ++ entries.fields), key⟩ := by
  match entries with
  | .last k value => exact k.setKey_obj value.toJson (hnew k.name List.mem_cons_self)
  | .more k value rest =>
    obtain ⟨hk, hrest⟩ := List.forall_mem_cons.mp hnew
    obtain ⟨hfresh, -, hdrest⟩ := hd
    have hafter : ∀ k' ∈ rest.fields.map (·.1),
        k' ∉ (fields ++ [(k.name, value.toJson)]).map (·.1) := by
      intro k' hk' hmem
      rw [List.map_append, List.mem_append] at hmem
      obtain hmem | hmem := hmem
      · exact hrest k' hk' hmem
      · rw [List.mem_singleton.mp hmem] at hk'
        exact hfresh hk'
    have hstep := setKeys_obj rest hdrest _ hafter
    rw [List.append_assoc] at hstep
    show YamlFrame.setKeys (YamlFrame.setKey _ k.name value.toJson) rest.fields = _
    rw [k.setKey_obj value.toJson hk]
    exact hstep

end Block

namespace YamlState

open Block

variable {f inner : YamlFrame} {outer : List YamlFrame} {l : YamlLine} {m n : Nat} {key : String}
  {s s' s'' : YamlState}

theorem item?_entry (n : Nat) (key : Key) (value : Node) :
    (⟨n, entryText key value⟩ : YamlLine).item? = none := by
  unfold YamlLine.item?
  split
  · exact absurd (List.cons.inj ‹_›).1 (key.first_ne rfl)
  · exact absurd (List.cons.inj ‹_›).1 (key.first_ne rfl)
  · rfl

theorem item?_head (n : Nat) (entries : Block.Entries) :
    (⟨n, entries.head⟩ : YamlLine).item? = none := by
  cases entries with
  | last key value => exact item?_entry n key value
  | more key value rest => exact item?_entry n key value

theorem item?_dash (n : Nat) (entries : Block.Entries) :
    (⟨n, '-' :: ' ' :: entries.head⟩ : YamlLine).item? = some ⟨n + 2, entries.head⟩ := by
  have hstop := (plain_head entries n).1.trimmed.first
  have hspan := takeWhile_append_of_stops (List.forall_mem_nil _) hstop
  unfold YamlLine.item?
  simp only
  rw [List.nil_append] at hspan
  rw [hspan, dropWhile_of_stops hstop]
  rfl

theorem addEntry_ownText (hlist : f.isList = false) (key : Key) (value : Node) :
    addEntry ⟨f, outer, none⟩ n (entryText key value) =
      if value.ownText.isEmpty then ⟨f, outer, some (key.name, n)⟩
      else ⟨f.setKey key.name (yamlScalar value.ownText), outer, none⟩ := by
  unfold addEntry
  rw [if_neg (by simp [hlist]), keyed?_entryText]
  cases value.ownText with
  | nil => rfl
  | cons c cs => rfl

/-- The line of a map's first key goes into the container that is open. -/
theorem step_head (entries : Block.Entries)
    (hs : ∀ l : YamlLine, l.indent = n → l.item? = none → s.enter l = ⟨f, outer, none⟩) :
    s.step ⟨n, entries.head⟩ = addEntry ⟨f, outer, none⟩ n entries.head := by
  rw [step_eq, hs _ rfl (item?_head n entries), take, item?_head]

theorem step_dash (entries : Block.Entries) (hlist : f.isList = true)
    (hs : s.enter ⟨n, '-' :: ' ' :: entries.head⟩ = ⟨f, outer, none⟩) :
    s.step ⟨n, '-' :: ' ' :: entries.head⟩ =
      addEntry ⟨⟨(n + 2 : Nat), .obj [], none⟩, f :: outer, none⟩ (n + 2) entries.head := by
  have hkeyed : (keyed? entries.head).isNone = false := by
    cases entries with
    | last key value => simp [Block.Entries.head, keyed?_entryText]
    | more key value rest => simp [Block.Entries.head, keyed?_entryText]
  rw [step_eq, hs, take, item?_dash]
  simp [hlist, hkeyed, openFrame]

/-- The lines of an item append it to the list that is open, if those of a map set its keys. -/
theorem agrees_item (item : Block.Entries) (hd : item.Distinct) (hlist : f.isList = true)
    (hs : s.enter ⟨n, '-' :: ' ' :: item.head⟩ = ⟨f, outer, none⟩)
    (hinside : Agrees (n + 2)
      ((item.tail (n + 2)).foldl step
        (addEntry ⟨⟨(n + 2 : Nat), .obj [], none⟩, f :: outer, none⟩ (n + 2) item.head))
      ⟨YamlFrame.setKeys ⟨(n + 2 : Nat), .obj [], none⟩ item.fields, f :: outer, none⟩) :
    Agrees (n + 1) ((item.tail (n + 2)).foldl step (s.step ⟨n, '-' :: ' ' :: item.head⟩))
      ⟨f.append (.obj item.fields), outer, none⟩ := by
  rw [step_dash item hlist hs]
  rw [item.setKeys_obj hd [] (by simp)] at hinside
  have hclosed : Agrees (n + 1) ⟨⟨(n + 2 : Nat), .obj item.fields, none⟩, f :: outer, none⟩
      ⟨f.append (.obj item.fields), outer, none⟩ := agrees_closed (by simp)
  exact (hinside.mono (by omega)).trans hclosed

mutual
/-- The lines of a value give it to its key. -/
theorem agrees_value (key : Key) (value : Node) (hd : value.Distinct) (n : Nat) (f : YamlFrame)
    (outer : List YamlFrame) (hlist : f.isList = false) :
    Agrees n ((value.linesUnder n).foldl step (addEntry ⟨f, outer, none⟩ n (entryText key value)))
      ⟨f.setKey key.name value.toJson, outer, none⟩ := by
  rw [addEntry_ownText hlist]
  match value with
  | .scalar x =>
    show Agrees n (if x.text.isEmpty then _
      else ⟨f.setKey key.name (yamlScalar x.text), outer, none⟩) _
    by_cases hempty : x.text = []
    · rw [if_pos (List.isEmpty_iff.mpr hempty), Node.toJson, x.toJson_of_text_eq_nil hempty]
      exact agrees_waiting
    · rw [if_neg (by simpa using hempty), x.yamlScalar_text hempty]
      exact .refl _ _
  | .map entries =>
    let g : YamlFrame := ⟨(n + 2 : Nat), .obj [], some key.name⟩
    have hopen : ∀ l : YamlLine, l.indent = n + 2 → l.item? = none →
        enter ⟨f, outer, some (key.name, n)⟩ l = ⟨g, f :: outer, none⟩ := by
      intro l hl hitem
      rw [enter_waiting (by omega), hl, hitem]
      rfl
    have hinside := agrees_entries entries hd (n + 2) g (f :: outer) (Int.le_refl _) rfl
    have hclosed : Agrees n ⟨g.setKeys entries.fields, f :: outer, none⟩
        ⟨f.setKey key.name (.obj entries.fields), outer, none⟩ := by
      rw [entries.setKeys_obj hd [] (by simp)]
      exact agrees_closed (by simp)
    show Agrees n ((entries.tail (n + 2)).foldl step (step ⟨f, outer, some (key.name, n)⟩ _)) _
    rw [step_head entries hopen]
    exact (hinside.mono (by omega)).trans hclosed
  | .list items =>
    let g : YamlFrame := ⟨(n + 2 : Nat), .arr [], some key.name⟩
    have hopen : ∀ entries : Block.Entries, enter ⟨f, outer, some (key.name, n)⟩
        ⟨n + 2, '-' :: ' ' :: entries.head⟩ = ⟨g, f :: outer, none⟩ := by
      intro entries
      rw [enter_waiting (by simp), item?_dash]
      rfl
    have hinside := agrees_items items hd (n + 2) ⟨f, outer, some (key.name, n)⟩ g (f :: outer) rfl
      rfl hopen
    have hclosed : Agrees n ⟨g.appendAll items.values, f :: outer, none⟩
        ⟨f.setKey key.name (.arr items.values), outer, none⟩ := by
      rw [YamlFrame.appendAll_arr]
      exact agrees_closed (by simp)
    exact (hinside.mono (by omega)).trans hclosed

/-- The lines of a map set its keys in the container that is open. -/
theorem agrees_entries (entries : Block.Entries) (hd : entries.Distinct) (n : Nat) (f : YamlFrame)
    (outer : List YamlFrame) (hindent : f.indent ≤ n) (hlist : f.isList = false) :
    Agrees n ((entries.tail n).foldl step (addEntry ⟨f, outer, none⟩ n entries.head))
      ⟨f.setKeys entries.fields, outer, none⟩ := by
  match entries with
  | .last key value => exact agrees_value key value hd n f outer hlist
  | .more key value rest =>
    obtain ⟨-, hdvalue, hdrest⟩ := hd
    have hvalue := agrees_value key value hdvalue n f outer hlist
    have hlist' : (f.setKey key.name value.toJson).isList = false := by
      rw [YamlFrame.isList_setKey, hlist]
    have hrest := agrees_entries rest hdrest n (f.setKey key.name value.toJson) outer hindent hlist'
    have hopen : ∀ l : YamlLine, l.indent = n → l.item? = none →
        enter ⟨f.setKey key.name value.toJson, outer, none⟩ l =
          ⟨f.setKey key.name value.toJson, outer, none⟩ := by
      intro l hl _
      exact enter_open (by rw [YamlFrame.indent_setKey]; omega) (by simp [hlist'])
    have hnext : YamlLine.Follows ⟨n, rest.head⟩ n := ⟨Nat.le_refl n, by simp [item?_head]⟩
    show Agrees n ((value.linesUnder n ++ ⟨n, rest.head⟩ :: rest.tail n).foldl step
      (addEntry ⟨f, outer, none⟩ n (entryText key value))) _
    rw [List.foldl_append, List.foldl_cons, hvalue.step hnext, step_head rest hopen]
    exact hrest

/-- The lines of a list append its items to the container that is open. -/
theorem agrees_items (items : Items) (hd : items.Distinct) (n : Nat) (s : YamlState) (f : YamlFrame)
    (outer : List YamlFrame) (hindent : f.indent = n) (hlist : f.isList = true)
    (hs : ∀ entries : Block.Entries, s.enter ⟨n, '-' :: ' ' :: entries.head⟩ = ⟨f, outer, none⟩) :
    Agrees (n + 1) ((items.lines n).foldl step s) ⟨f.appendAll items.values, outer, none⟩ := by
  match items with
  | .last item =>
    exact agrees_item item hd hlist (hs item)
      (agrees_entries item hd (n + 2) _ _ (Int.le_refl _) rfl)
  | .more item rest =>
    obtain ⟨hditem, hdrest⟩ := hd
    have hfirst := agrees_item item hditem hlist (hs item)
      (agrees_entries item hditem (n + 2) _ _ (Int.le_refl _) rfl)
    have hlist' : (f.append (.obj item.fields)).isList = true := by
      rw [YamlFrame.isList_append, hlist]
    have hnext : ∀ entries : Block.Entries,
        enter ((item.tail (n + 2)).foldl step (s.step ⟨n, '-' :: ' ' :: item.head⟩))
          ⟨n, '-' :: ' ' :: entries.head⟩ = ⟨f.append (.obj item.fields), outer, none⟩ := by
      intro entries
      rw [hfirst.enter _ ⟨Nat.le_succ n, fun _ => Nat.lt_succ_self n⟩]
      refine enter_open ?_ (by simp [item?_dash])
      rw [YamlFrame.indent_append, hindent]
    have hrest := agrees_items rest hdrest n _ _ outer (by rw [YamlFrame.indent_append, hindent])
      hlist' hnext
    show Agrees (n + 1) ((item.tail (n + 2) ++ rest.lines n).foldl step _) _
    rw [List.foldl_append]
    exact hrest
end

end YamlState

/-! ## Texts -/

/-- The text of a document in block style is read as the document, whatever blank lines and comments
stand between its lines. -/
theorem readYaml_blocks (document : Block.Document) (hd : document.Distinct)
    {texts : List (List Char)} (h : Filled document.lines texts) :
    readYaml (Text.join "\n" (texts.map String.ofList)) = .obj document.fields := by
  unfold readYaml
  rw [h.read (plain_document document)]
  cases document with
  | empty => rfl
  | block entries =>
    have hopen : ∀ l : YamlLine, l.indent = 0 → l.item? = none →
        YamlState.enter {} l = ⟨⟨-1, .obj [], none⟩, [], none⟩ := fun l hl _ =>
      YamlState.enter_open (by simp) (by simp [YamlFrame.isList])
    have hblock := YamlState.agrees_entries entries hd 0 ⟨-1, .obj [], none⟩ [] (by decide) rfl
    show ((entries.tail 0).foldl YamlState.step
      (YamlState.step {} ⟨0, entries.head⟩)).finish = _
    rw [YamlState.step_head entries hopen, hblock.finish, entries.setKeys_obj hd [] (by simp)]
    rfl

/-- A key of one letter. -/
def Block.Key.letter (c : Char) (h : c.isAlpha = true) : Key := ⟨c, [], h, List.forall_mem_nil _⟩

/-- A list in a list, a quoted text, a key without a value and a number. -/
def Block.Document.sample : Document :=
  let a := Key.letter 'a' rfl
  let b := Key.letter 'b' rfl
  .block (.more a
    (.list (.more (.more a (.list (.last (.last b (.scalar (.str "a: #" (by simp [endsLine]))))))
        (.last b (.scalar (.null .absent))))
      (.last (.last b (.map (.last b (.scalar .emptyList)))))))
    (.last b (.scalar (.int (-5) (by decide)))))

/-- The sample with a blank line and two comments in it. -/
def Block.Document.sampleTexts : List (List Char) :=
  ["a:", "  - a:", "# a", "      - b: \"a: #\"", "", "    b:", "  - b:", "  # b:", "      b: []",
    "b: -5"].map String.toList

theorem readYaml_blocks_sample : Block.Document.sample.Distinct ∧
    Filled Block.Document.sample.lines Block.Document.sampleTexts ∧
    readYaml (Text.join "\n" (Block.Document.sampleTexts.map String.ofList)) =
      .obj [("a", .arr [.obj [("a", .arr [.obj [("b", .str "a: #")]]), ("b", .null)],
        .obj [("b", .obj [("b", .arr [])])]]), ("b", .int (-5))] := by
  have hd : Block.Document.sample.Distinct :=
    ⟨by decide, ⟨⟨by decide, trivial, trivial⟩, trivial⟩, trivial⟩
  have h : Filled Block.Document.sample.lines Block.Document.sampleTexts :=
    .line _ (.line _ (.filler ⟨by decide, by simp [Text.isBlank]⟩
      (.line _ (.filler ⟨by decide, by simp⟩ (.line _ (.line _
        (.filler ⟨by decide, by simp [Text.isBlank]⟩ (.line _ (.line _ .nil)))))))))
  exact ⟨hd, h, readYaml_blocks _ hd h⟩

end Wordstack
