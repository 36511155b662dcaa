import Wordstack.Proofs.Config.ReadBack

/-!
# Quoted texts behind keys and in lists

A quoted text behind a key is read as that text, whatever stands in it. An item of a list is first
looked at as an entry, and quotes do not count there: a quoted text whose first colon stands before
a blank is read as the first entry of a map.

- **Texts** (`Block.LooksKeyed`): those that are taken for an entry, and what they are taken for
  (`Block.keyed?_quoted_of_colon`, `Block.keyed?_quoted_of_not_looksKeyed`).
- **Places** (`YamlState.step_quotedEntry`, `YamlState.step_quotedItem`): what the line of an entry
  and that of an item do, wherever they stand.
- **Lists** (`readYaml_quotedList`): a list of quoted texts, with blank lines and comments in it.
- **Both** (`quoted_texts_read_alike_iff`).
-/

namespace Wordstack

/-! ## Texts -/

theorem mem_dropWhile_of_mem {p : Char → Bool} {cs : List Char} {c : Char} (hc : c ∈ cs)
    (h : p c = false) : c ∈ cs.dropWhile p := by
  rw [← List.takeWhile_append_dropWhile (p := p) (l := cs)] at hc
  obtain hc | hc := List.mem_append.mp hc
  · rw [List.mem_takeWhile_imp hc] at h
    cases h
  · exact hc

theorem Text.trimChars_ne_nil {cs : List Char} {c : Char} (hc : c ∈ cs)
    (h : isBlank c = false) : trimChars cs ≠ [] := by
  have hmem : c ∈ trimChars cs := by
    rw [trimChars, trimEnd, List.mem_reverse]
    exact mem_dropWhile_of_mem (List.mem_reverse.mpr (mem_dropWhile_of_mem hc h)) h
  exact List.ne_nil_of_mem hmem

namespace Block

/-- A text in double quotes. -/
def quoted (s : String) : List Char := '"' :: (s.toList ++ ['"'])

/-- The first colon of a text stands before a blank. -/
def LooksKeyed (s : String) : Prop :=
  ∃ front d back, s.toList = front ++ ':' :: d :: back ∧ ':' ∉ front ∧ Text.isBlank d = true

variable {s : String}

/-- What follows a dash is taken apart at its first colon, quotes or not. -/
theorem keyed?_quoted_of_colon (hs : ∀ c ∈ s.toList, endsLine c = false) {front back : List Char}
    {d : Char} (h : s.toList = front ++ ':' :: d :: back) (hfront : ':' ∉ front) :
    keyed? (quoted s) = if Text.isBlank d then
      some (String.ofList (Text.trimChars ('"' :: front)),
        Text.trimChars ((back ++ ['"']).dropWhile Text.isBlank)) else none := by
  have hkey : ∀ c ∈ '"' :: front, (c != ':') = true := by
    refine List.forall_mem_cons.mpr ⟨by decide, fun c hc => ?_⟩
    rw [bne_iff_ne]
    rintro rfl
    exact hfront hc
  have hstop : Stops (· != ':') (':' :: d :: (back ++ ['"'])) := by simp [Stops]
  have hline : ((back ++ ['"']).dropWhile Text.isBlank).any endsLine = false := by
    rw [List.any_eq_false]
    intro c hc
    obtain hc | hc := List.mem_append.mp ((List.dropWhile_suffix _).mem hc)
    · simpa using hs c (by simp [h, hc])
    · rw [List.mem_singleton.mp hc]
      decide
  have hquoted : quoted s = '"' :: front ++ ':' :: d :: (back ++ ['"']) := by simp [quoted, h]
  rw [hquoted]
  unfold keyed?
  rw [List.cons_append]
  dsimp only
  rw [if_neg (by decide), ← List.cons_append, takeWhile_append_of_stops hkey hstop,
    dropWhile_append_of_stops hkey hstop]
  simp [hline]

theorem keyed?_quoted_of_not_looksKeyed (hs : ∀ c ∈ s.toList, endsLine c = false)
    (h : ¬ LooksKeyed s) : keyed? (quoted s) = none := by
  have hfirst : (Text.isBlank '"' || '"' == ':' || '"' == '#' || '"' == '-') = false := by decide
  by_cases hcolon : ':' ∈ s.toList
  · obtain ⟨front, more, hsplit, hfront⟩ := List.eq_append_cons_of_mem hcolon
    cases more with
    | nil =>
      -- The colon stands before the closing quote.
      have hkey : ∀ c ∈ '"' :: front, (c != ':') = true := by
        refine List.forall_mem_cons.mpr ⟨by decide, fun c hc => ?_⟩
        rw [bne_iff_ne]
        rintro rfl
        exact hfront hc
      have hstop : Stops (· != ':') [':', '"'] := by simp [Stops]
      have hquoted : quoted s = '"' :: front ++ [':', '"'] := by simp [quoted, hsplit]
      rw [hquoted]
      unfold keyed?
      rw [List.cons_append]
      dsimp only
      rw [hfirst, if_neg Bool.false_ne_true, ← List.cons_append,
        dropWhile_append_of_stops hkey hstop]
      rfl
    | cons d back =>
      rw [keyed?_quoted_of_colon hs hsplit hfront, if_neg]
      exact fun hd => h ⟨front, d, back, hsplit, hfront, hd⟩
  · have hnone : (quoted s).dropWhile (· != ':') = [] := by
      rw [List.dropWhile_eq_nil_iff]
      intro c hc
      rw [bne_iff_ne]
      rintro rfl
      simp [quoted, hcolon] at hc
    unfold keyed?
    rw [hnone]
    simp [quoted]

/-- A quoted text is taken for an entry if and only if its first colon stands before a blank. Such
an entry has a value. -/
theorem keyed?_quoted (hs : ∀ c ∈ s.toList, endsLine c = false) :
    (¬ LooksKeyed s ∧ keyed? (quoted s) = none) ∨
      (LooksKeyed s ∧ ∃ key value, keyed? (quoted s) = some (key, value) ∧ key ≠ "__proto__" ∧
        value ≠ []) := by
  by_cases h : LooksKeyed s
  · obtain ⟨front, d, back, hsplit, hfront, hd⟩ := h
    refine .inr ⟨⟨front, d, back, hsplit, hfront, hd⟩, _, _,
      by rw [keyed?_quoted_of_colon hs hsplit hfront, if_pos hd], ?_, ?_⟩
    · intro heq
      have hchars : Text.trimChars ('"' :: front) = "__proto__".toList := by
        rw [← heq, String.toList_ofList]
      have hhead : '_' ∈ (('"' :: front).dropWhile Text.isBlank).head? :=
        Text.head?_trimChars (by rw [hchars]; rfl)
      simp [Text.isBlank] at hhead
    · refine Text.trimChars_ne_nil (c := '"') ?_ (by decide)
      exact mem_dropWhile_of_mem (by simp) (by decide)
  · exact .inl ⟨h, keyed?_quoted_of_not_looksKeyed hs h⟩

/-! ## Lines -/

/-- The line of a key with a quoted text behind it. -/
def quotedEntry (n : Nat) (key : Key) (s : String) : YamlLine :=
  ⟨n, key.text ++ ':' :: ' ' :: quoted s⟩

/-- The line of an item that is a quoted text. -/
def quotedItem (n : Nat) (s : String) : YamlLine := ⟨n, '-' :: ' ' :: quoted s⟩

/-- A key with a list of quoted texts under it. -/
def quotedList (key : Key) (texts : List String) : List YamlLine :=
  ⟨0, key.text ++ [':']⟩ :: texts.map (quotedItem 2)

/-- What a quoted text is read as in a list. -/
def itemValue (s : String) : Json :=
  match keyed? (quoted s) with
  | some (key, value) => .obj [(key, yamlScalar value)]
  | none => .str s

theorem itemValue_eq_str_iff (hs : ∀ c ∈ s.toList, endsLine c = false) :
    itemValue s = .str s ↔ ¬ LooksKeyed s := by
  unfold itemValue
  obtain ⟨h, hkeyed⟩ | ⟨h, key, value, hkeyed, -⟩ := keyed?_quoted hs
  · simp [hkeyed, h]
  · simp [hkeyed, h]

theorem yamlScalar_quoted (hs : ∀ c ∈ s.toList, endsLine c = false) :
    yamlScalar (quoted s) = .str s :=
  (Scalar.str s hs).yamlScalar_text (List.cons_ne_nil _ _)

theorem item?_quotedItem (n : Nat) (s : String) :
    (quotedItem n s).item? = some ⟨n + 2, quoted s⟩ := rfl

theorem plain_quotedItem (hs : ∀ c ∈ s.toList, endsLine c = false) (n : Nat) :
    (quotedItem n s).Plain where
  trimmed := ⟨by simp [quotedItem, Stops]; decide, by simp [quotedItem, quoted, Stops]; decide⟩
  nonempty := List.cons_ne_nil _ _
  uncommented := by simp [quotedItem]
  unbroken := by
    have hbreak : '\n' ∉ s.toList := fun h => absurd (hs _ h) (by decide)
    simp [quotedItem, quoted, hbreak]

theorem plain_quotedList (key : Key) {texts : List String}
    (hs : ∀ s ∈ texts, ∀ c ∈ s.toList, endsLine c = false) :
    ∀ l ∈ quotedList key texts, l.Plain := by
  refine List.forall_mem_cons.mpr ⟨plain_entry 0 key (.scalar (.null .absent)), ?_⟩
  rw [List.forall_mem_map]
  exact fun s hmem => plain_quotedItem (hs s hmem) 2

end Block

/-! ## Places -/

namespace YamlState

open Block

variable {f : YamlFrame} {outer : List YamlFrame} {n : Nat} {s : String} {state : YamlState}

/-- Sets a key of the innermost container. -/
def setKey (state : YamlState) (key : String) (x : Json) : YamlState :=
  { state with top := state.top.setKey key x }

/-- Appends to the innermost container. -/
def append (state : YamlState) (x : Json) : YamlState := { state with top := state.top.append x }

theorem waiting_settle (state : YamlState) (l : YamlLine) : (state.settle l).waiting = none := by
  unfold settle
  split
  · assumption
  · dsimp only
    split <;> rfl

/-- No key waits any more when a line is taken. -/
theorem exists_enter_eq (state : YamlState) (l : YamlLine) :
    ∃ f outer, state.enter l = ⟨f, outer, none⟩ := by
  refine ⟨(state.enter l).top, (state.enter l).outer, ?_⟩
  rw [← state.waiting_settle l]
  rfl

/-- A quoted text behind a key is given to the key, wherever the line stands. -/
theorem step_quotedEntry (hs : ∀ c ∈ s.toList, endsLine c = false) (key : Key)
    (hmap : (state.enter (quotedEntry n key s)).top.isList = false) :
    state.step (quotedEntry n key s) =
      (state.enter (quotedEntry n key s)).setKey key.name (.str s) := by
  have hitem : (quotedEntry n key s).item? = none := item?_entry n key (.scalar (.str s hs))
  obtain ⟨f, outer, henter⟩ := state.exists_enter_eq (quotedEntry n key s)
  rw [henter] at hmap
  rw [step_eq, take, hitem, henter]
  refine (addEntry_ownText hmap key (.scalar (.str s hs))).trans ?_
  show (⟨f.setKey key.name (yamlScalar (Block.quoted s)), outer, none⟩ : YamlState) = _
  rw [yamlScalar_quoted hs]
  rfl

/-- A quoted item is appended to the list, wherever the line stands, or opens a map in it. -/
theorem step_quotedItem (hs : ∀ c ∈ s.toList, endsLine c = false)
    (hlist : (state.enter (quotedItem n s)).top.isList = true) :
    (¬ LooksKeyed s ∧ state.step (quotedItem n s) =
        (state.enter (quotedItem n s)).append (.str s)) ∨
      (LooksKeyed s ∧ ∃ key value, itemValue s = .obj [(key, value)] ∧
        state.step (quotedItem n s) = (state.enter (quotedItem n s)).openFrame
          ⟨(n + 2 : Nat), .obj [(key, value)], none⟩) := by
  obtain ⟨f, outer, henter⟩ := state.exists_enter_eq (quotedItem n s)
  rw [henter] at hlist
  rw [step_eq, henter, take, item?_quotedItem]
  dsimp only
  rw [hlist]
  obtain ⟨h, hkeyed⟩ | ⟨h, key, value, hkeyed, hproto, hvalue⟩ := keyed?_quoted hs
  · refine .inl ⟨h, ?_⟩
    rw [hkeyed, yamlScalar_quoted hs]
    rfl
  · refine .inr ⟨h, key, yamlScalar value, by simp [itemValue, hkeyed], ?_⟩
    obtain ⟨c, cs, rfl⟩ := List.exists_cons_of_ne_nil hvalue
    have hset : setYamlKey (.obj []) key (yamlScalar (c :: cs)) =
        .obj [(key, yamlScalar (c :: cs))] := by
      rw [setYamlKey, if_neg (by simpa using hproto)]
      rfl
    simp [addEntry, hkeyed, openFrame, YamlFrame.isList, YamlFrame.setKey, hset]

/-! ## Lists -/

/-- The line of a quoted item appends what it is read as. -/
theorem agrees_quotedItem (hs : ∀ c ∈ s.toList, endsLine c = false) (hlist : f.isList = true)
    (hstate : state.enter (quotedItem n s) = ⟨f, outer, none⟩) :
    Agrees (n + 1) (state.step (quotedItem n s)) ⟨f.append (itemValue s), outer, none⟩ := by
  obtain ⟨h, hstep⟩ | ⟨h, key, value, hvalue, hstep⟩ :=
    step_quotedItem hs (by rw [hstate]; exact hlist)
  · rw [hstep, hstate, (itemValue_eq_str_iff hs).mpr h]
    exact .refl _ _
  · rw [hstep, hstate, hvalue]
    exact agrees_closed (by simp)

theorem agrees_quotedItems (texts : List String) {s : String}
    (hs : ∀ t ∈ s :: texts, ∀ c ∈ t.toList, endsLine c = false) (hindent : f.indent = n)
    (hlist : f.isList = true)
    (hstate : ∀ t, state.enter (quotedItem n t) = ⟨f, outer, none⟩) :
    Agrees (n + 1) (((s :: texts).map (quotedItem n)).foldl step state)
      ⟨f.appendAll ((s :: texts).map itemValue), outer, none⟩ := by
  have hfirst := agrees_quotedItem (hs s List.mem_cons_self) hlist (hstate s)
  induction texts generalizing s f state with
  | nil => exact hfirst
  | cons t texts ih =>
    have hlist' : (f.append (itemValue s)).isList = true := by rw [YamlFrame.isList_append, hlist]
    have hindent' : (f.append (itemValue s)).indent = n := by rw [YamlFrame.indent_append, hindent]
    have hnext : ∀ t, enter (state.step (quotedItem n s)) (quotedItem n t) =
        ⟨f.append (itemValue s), outer, none⟩ := by
      intro t
      rw [hfirst.enter _ ⟨Nat.le_succ n, fun _ => Nat.lt_succ_self n⟩]
      exact enter_open (Int.le_of_eq hindent') (by simp [item?_quotedItem])
    have hrest := (List.forall_mem_cons.mp hs).2
    exact ih hrest hindent' hlist' hnext
      (agrees_quotedItem (hrest t List.mem_cons_self) hlist' (hnext t))

end YamlState

open Block

/-- A list of quoted texts, with blank lines and comments between its lines. -/
theorem readYaml_quotedList (key : Key) {texts : List String} (hne : texts ≠ [])
    (hs : ∀ s ∈ texts, ∀ c ∈ s.toList, endsLine c = false) {lines : List (List Char)}
    (h : Filled (quotedList key texts) lines) :
    readYaml (Text.join "\n" (lines.map String.ofList)) =
      .obj [(key.name, .arr (texts.map itemValue))] := by
  obtain ⟨s, texts, rfl⟩ := List.exists_cons_of_ne_nil hne
  let root : YamlFrame := ⟨-1, .obj [], none⟩
  let list : YamlFrame := ⟨(2 : Nat), .arr [], some key.name⟩
  have hhead : YamlState.step {} ⟨0, key.text ++ [':']⟩ = ⟨root, [], some (key.name, 0)⟩ := by
    have hitem : (⟨0, key.text ++ [':']⟩ : YamlLine).item? = none :=
      YamlState.item?_entry 0 key (.scalar (.null .absent))
    have hopen : YamlState.enter {} ⟨0, key.text ++ [':']⟩ = ⟨root, [], none⟩ :=
      YamlState.enter_open (by simp) (by simp [YamlFrame.isList])
    rw [YamlState.step_eq, hopen, YamlState.take, hitem]
    exact YamlState.addEntry_ownText rfl key (.scalar (.null .absent))
  have hopen : ∀ t, YamlState.enter ⟨root, [], some (key.name, 0)⟩ (quotedItem 2 t) =
      ⟨list, [root], none⟩ := by
    intro t
    rw [YamlState.enter_waiting (by simp [quotedItem]), item?_quotedItem]
    rfl
  have hitems := YamlState.agrees_quotedItems texts hs rfl rfl hopen
  unfold readYaml
  rw [h.read (plain_quotedList key hs), quotedList, List.foldl_cons, hhead, hitems.finish,
    YamlFrame.appendAll_arr]
  exact congrArg YamlFrame.value (key.setKey_obj (.arr ((s :: texts).map itemValue)) (by simp))

/-- Quoted texts on their lines. Behind a key each of them is given to the key as it is, wherever
the line stands. As an item it is appended as it is to the list that is open if and only if its
first colon does not stand before a blank; and a list of such items is read as the list of the texts
if and only if this holds of all of them. -/
theorem quoted_texts_read_alike_iff (key : Key) {texts : List String} (hne : texts ≠ [])
    (hs : ∀ s ∈ texts, ∀ c ∈ s.toList, endsLine c = false) :
    (∀ s ∈ texts, ∀ (state : YamlState) (n : Nat),
      (state.enter (quotedEntry n key s)).top.isList = false →
        state.step (quotedEntry n key s) =
          (state.enter (quotedEntry n key s)).setKey key.name (.str s)) ∧
      (∀ s ∈ texts, ∀ (state : YamlState) (n : Nat),
        (state.enter (quotedItem n s)).top.isList = true →
          (state.step (quotedItem n s) = (state.enter (quotedItem n s)).append (.str s) ↔
            ¬ LooksKeyed s)) ∧
      ∀ lines, Filled (quotedList key texts) lines →
        (readYaml (Text.join "\n" (lines.map String.ofList)) =
          .obj [(key.name, .arr (texts.map .str))] ↔ ∀ s ∈ texts, ¬ LooksKeyed s) := by
  refine ⟨fun s hmem state n => YamlState.step_quotedEntry (hs s hmem) key,
    fun s hmem state n hlist => ?_, fun lines h => ?_⟩
  · obtain ⟨hplain, hstep⟩ | ⟨hkeyed, key', value, -, hstep⟩ :=
      YamlState.step_quotedItem (hs s hmem) hlist
    · exact iff_of_true hstep hplain
    · refine iff_of_false (fun heq => ?_) (not_not_intro hkeyed)
      -- The map that was opened is one container more.
      have hdepth := congrArg (fun state => state.outer.length) (hstep.symm.trans heq)
      simp [YamlState.openFrame, YamlState.append] at hdepth
  · have hitems : texts.map itemValue = texts.map .str ↔ ∀ s ∈ texts, ¬ LooksKeyed s := by
      rw [List.map_inj_left]
      exact forall₂_congr fun s hmem => itemValue_eq_str_iff (hs s hmem)
    rw [readYaml_quotedList key hne hs h, ← hitems]
    simp

/-- Texts with colons, dashes, a comment sign, quotes and blanks. -/
def Block.sampleItems : List String := ["a:b: c", "- # ", "\"'", ":"]

/-- The lines of a list of the sample texts, with a comment between them. -/
def Block.sampleItemLines : List (List Char) :=
  ["k:", "  - \"a:b: c\"", "  - \"- # \"", "# c", "  - \"\"'\"", "  - \":\""].map String.toList

theorem quoted_texts_read_alike_iff_colons :
    sampleItems ≠ [] ∧ (∀ s ∈ sampleItems, ∀ c ∈ s.toList, endsLine c = false) ∧
      Filled (quotedList (Key.letter 'k' rfl) sampleItems) sampleItemLines ∧
      (∀ s ∈ sampleItems, ¬ LooksKeyed s) ∧
      readYaml (Text.join "\n" (sampleItemLines.map String.ofList)) =
        .obj [("k", .arr [.str "a:b: c", .str "- # ", .str "\"'", .str ":"])] := by
  have hs : ∀ s ∈ sampleItems, ∀ c ∈ s.toList, endsLine c = false := by
    simp [sampleItems, endsLine]
  have hlines : Filled (quotedList (Key.letter 'k' rfl) sampleItems) sampleItemLines :=
    .line _ (.line _ (.line _ (.filler ⟨by decide, by simp [Text.isBlank]⟩
      (.line _ (.line _ .nil)))))
  have hplain : ∀ s ∈ sampleItems, ¬ LooksKeyed s := by
    intro s hmem
    rw [← itemValue_eq_str_iff (hs s hmem)]
    simp only [sampleItems, List.mem_cons, List.not_mem_nil, or_false] at hmem
    obtain rfl | rfl | rfl | rfl := hmem <;> rfl
  have h := quoted_texts_read_alike_iff (Key.letter 'k' rfl) (List.cons_ne_nil _ _) hs
  exact ⟨List.cons_ne_nil _ _, hs, hlines, hplain, (h.2.2 _ hlines).mpr hplain⟩

/-- An item that is a quoted text may be read as a map, where the same text behind a key is read as
it is. -/
theorem quoted_item_may_be_map :
    readYaml "k: \"a: b\"" = .obj [("k", .str "a: b")] ∧
      readYaml "k:\n  - \"a: b\"" = .obj [("k", .arr [.obj [("\"a", .str "b\"")]])] ∧
      readYaml "k:\n  - \"a: b\"" ≠ .obj [("k", .arr [.str "a: b"])] := by
  have hread : readYaml "k:\n  - \"a: b\"" =
      .obj [("k", .arr [.obj [("\"a", .str "b\"")]])] := rfl
  refine ⟨rfl, hread, ?_⟩
  rw [hread]
  simp

end Wordstack
