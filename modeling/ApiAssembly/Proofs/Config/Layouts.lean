import ApiAssembly.Config.Properties
import ApiAssembly.Proofs.Keyed.Distinct
import ApiAssembly.Proofs.Text.Splitting

/-!
# Proofs — Config — every layout of a properties file

`Text.Written` says which lines a text consists of, and `Properties.Layout` how entries are laid out
in lines: each entry may be indented, has one separator with blanks around it and may be broken over
several lines (`Broken`), and remarks stand between entries.

What decides about a line is the text that is pending from the lines before, so there is one
equation for each kind of line: a remark is passed over where nothing is pending
(`logicalLines_remark`), a piece that is broken off is added to the pending text
(`logicalLines_piece`), and the last piece ends the entry (`logicalLines_last`).  The lines of one
entry are then one logical line (`logicalLines_broken`), from which its key and its value are read
(`splitEntry_spelled`), and a layout of entries is read as these entries (`logicalLines_layout`,
`parse_layout`).
-/

namespace ApiAssembly

namespace Text

/-- A text consists of these lines.  A line ends with a line feed, and a carriage return before it
belongs to the end of the line; the last line may go without one. -/
inductive Written : List (List Char) → List Char → Prop
  | nil : Written [] []
  | last {line : List Char} (hline : '\n' ∉ line) (hne : line ≠ []) : Written [line] line
  | feed {line text : List Char} {ls : List (List Char)} (hline : '\n' ∉ line)
      (hend : line.getLast? ≠ some '\r') (h : Written ls text) :
      Written (line :: ls) (line ++ '\n' :: text)
  | returnFeed {line text : List Char} {ls : List (List Char)} (hline : '\n' ∉ line)
      (h : Written ls text) :
      Written (line :: ls) (line ++ '\r' :: '\n' :: text)

variable {line text cs before : List Char} {ls : List (List Char)} {c : Char}

theorem lines_of_not_mem (hline : '\n' ∉ line) (hne : line ≠ []) : lines line = [line] := by
  have hsplit : splitAll (· == '\n') line = [line] :=
    splitAll_of_forall fun c hc => beq_eq_false_iff_ne.mpr fun he => hline (he ▸ hc)
  rw [lines, hsplit]
  simp [hne]

/-- A line feed ends a line, with a carriage return in front of it. -/
theorem lines_append_feed (hline : '\n' ∉ line) (cs : List Char) :
    lines (line ++ '\n' :: cs) = dropReturn line :: lines cs := by
  have hsplit : splitAll (· == '\n') line = [line] :=
    splitAll_of_forall fun c hc => beq_eq_false_iff_ne.mpr fun he => hline (he ▸ hc)
  obtain ⟨part, rest, hcs⟩ := exists_splitAll_eq_cons (· == '\n') cs
  rw [lines, splitAll_append_cons (p := (· == '\n')) rfl, hsplit, lines, hcs, List.singleton_append,
    List.dropLast_cons_cons, List.map_cons, List.getLast?_cons_cons, List.cons_append]

/-- A text that is written in lines is cut into these lines. -/
theorem lines_written (h : Written ls text) : lines text = ls := by
  induction h with
  | nil => rfl
  | last hline hne => exact lines_of_not_mem hline hne
  | feed hline hend _ ih => rw [lines_append_feed hline, dropReturn, if_neg hend, ih]
  | @returnFeed line ls text hline _ ih =>
    have hreturn : '\n' ∉ line ++ ['\r'] := by simpa using hline
    rw [List.append_cons, lines_append_feed hreturn, dropReturn, List.getLast?_concat, if_pos rfl,
      List.dropLast_concat, ih]

theorem trimStart_allBlank_append (h : allBlank before) (cs : List Char) :
    trimStart (before ++ cs) = trimStart cs :=
  List.dropWhile_append_of_pos (List.all_eq_true.mp h)

/-- An indented text is trimmed down to its first character that is not blank. -/
theorem trimStart_indented (h : allBlank before) (hc : isBlank c = false) (cs : List Char) :
    trimStart (before ++ c :: cs) = c :: cs := by
  rw [trimStart_allBlank_append h, trimStart, List.dropWhile_cons_of_neg (by simp [hc])]

theorem not_isBlank_of_trim_eq (h : trim (c :: cs) = c :: cs) : isBlank c = false := by
  obtain ⟨dropped, hstart, -⟩ := exists_eq_dropEndWhile_append isBlank (trimStart (c :: cs))
  rw [← trimEnd, ← trim, h] at hstart
  cases hc : isBlank c with
  | false => rfl
  | true =>
    -- Without its first character the text would be shorter than what is left of it.
    rw [trimStart, List.dropWhile_cons_of_pos hc] at hstart
    have hlength := (List.dropWhile_suffix isBlank (l := cs)).length_le
    rw [hstart, List.length_append, List.length_cons] at hlength
    omega

end Text

namespace Properties

/-! ### Layouts -/

/-- A key and a value that can be written down as they are.  A backslash in a key does no harm, and
text with a line break has no layout, for it would be two lines. -/
structure Writable (entry : String × String) : Prop where
  key_ne : entry.1.toList ≠ []
  key_trimmed : Text.trim entry.1.toList = entry.1.toList
  key_plain : ∀ c ∈ entry.1.toList, isSeparator c = false
  key_start : isComment entry.1.toList = false
  value_start : Text.trimStart entry.2.toList = entry.2.toList
  value_end : entry.2.toList.getLast? ≠ some '\\'

/-- A blank line, or a comment after some indentation. -/
inductive IsRemark : List Char → Prop
  | blank {line : List Char} (h : Text.allBlank line) : IsRemark line
  | comment (indent rest : List Char) {c : Char} (hindent : Text.allBlank indent)
      (hmark : c = '#' ∨ c = '!') : IsRemark (indent ++ c :: rest)

/-- An entry in one piece: key, separator and value, with blanks around the separator. -/
inductive Spelled (entry : String × String) : List Char → Prop
  | mk (before after : List Char) {sep : Char} (hbefore : Text.allBlank before)
      (hsep : isSeparator sep) (hafter : Text.allBlank after) :
      Spelled entry (entry.1.toList ++ before ++ sep :: (after ++ entry.2.toList))

/-- A text is broken over lines.  What is broken off is not blank and does not end in a backslash,
and the next piece does not begin with a blank. -/
inductive Broken : List Char → List (List Char) → Prop
  | last {content : List Char} (indent : List Char) (hindent : Text.allBlank indent) :
      Broken content [indent ++ content]
  | piece (indent piece : List Char) {rest : List Char} {c : Char} {ls : List (List Char)}
      (hindent : Text.allBlank indent) (hpiece : ¬ Text.allBlank piece)
      (hend : piece.getLast? ≠ some '\\') (hc : isBlank c = false) (h : Broken (c :: rest) ls) :
      Broken (piece ++ c :: rest) ((indent ++ piece ++ ['\\']) :: ls)

/-- Entries are laid out in lines, with remarks before, between and after them. -/
inductive Layout : List (String × String) → List (List Char) → Prop
  | nil : Layout [] []
  | remark {line : List Char} {entries : List (String × String)} {ls : List (List Char)}
      (hline : IsRemark line) (h : Layout entries ls) : Layout entries (line :: ls)
  | entry {entry : String × String} {content : List Char} {block : List (List Char)}
      {entries : List (String × String)} {ls : List (List Char)} (hspelled : Spelled entry content)
      (hbroken : Broken content block) (h : Layout entries ls) :
      Layout (entry :: entries) (block ++ ls)

variable {entry : String × String} {entries : List (String × String)}
  {content line indent part pending : List Char} {block ls : List (List Char)} {c : Char}

/-! ### Backslashes at the end -/

/-- Without a backslash at the end there are none to count. -/
theorem backslashesAtEnd_of_getLast?_ne (h : line.getLast? ≠ some '\\') :
    backslashesAtEnd line = 0 := by
  cases line using List.reverseRecOn with
  | nil => rfl
  | append_singleton line c =>
    rw [List.getLast?_concat, Ne, Option.some.injEq] at h
    rw [backslashesAtEnd, List.reverse_concat, List.takeWhile_cons_of_neg (by simp [h])]
    rfl

/-- One backslash more at the end is one more to count. -/
theorem backslashesAtEnd_concat (line : List Char) :
    backslashesAtEnd (line ++ ['\\']) = backslashesAtEnd line + 1 := by
  rw [backslashesAtEnd, List.reverse_concat, List.takeWhile_cons_of_pos (by simp)]
  rfl

/-- A line without a backslash at the end is not continued. -/
theorem continued?_of_getLast?_ne (h : line.getLast? ≠ some '\\') : continued? line = none := by
  rw [continued?, backslashesAtEnd_of_getLast?_ne h]
  rfl

/-- A line with one backslash at the end is continued, and the backslash is dropped. -/
theorem continued?_concat (h : part.getLast? ≠ some '\\') :
    continued? (part ++ ['\\']) = some part := by
  rw [continued?, backslashesAtEnd_concat, backslashesAtEnd_of_getLast?_ne h, if_pos rfl,
    List.dropLast_concat]

/-! ### One line -/

/-- What begins with this character is no comment here: either text is pending, or no comment
begins with it. -/
def Opens (pending : List Char) (c : Char) : Prop := pending ≠ [] ∨ (c ≠ '#' ∧ c ≠ '!')

/-- What opens or continues an entry is no remark. -/
theorem Opens.not_comment (h : Opens pending c) (cs : List Char) :
    (pending.isEmpty && isComment (c :: cs)) = false := by
  rcases h with h | ⟨hhash, hmark⟩
  · simp [h]
  · simp [isComment, hhash, hmark]

/-- Where nothing is pending, a remark is passed over. -/
theorem logicalLines_remark (h : IsRemark line) (ls : List (List Char)) :
    logicalLines [] (line :: ls) = logicalLines [] ls := by
  have hcomment : isComment (Text.trimStart line) = true := by
    cases h with
    | @blank line h =>
      have hnil : Text.trimStart line = [] := by
        rw [← line.append_nil, Text.trimStart_allBlank_append h]
        rfl
      rw [hnil]
      rfl
    | comment indent rest hindent hmark =>
      rcases hmark with rfl | rfl
      · rw [Text.trimStart_indented hindent rfl]
        rfl
      · rw [Text.trimStart_indented hindent rfl]
        rfl
  simp only [logicalLines, hcomment, List.isEmpty_nil, Bool.and_self, if_true]

/-- A piece that is broken off is added to what is pending. -/
theorem logicalLines_piece (hopens : Opens pending c) (hindent : Text.allBlank indent)
    (hc : isBlank c = false) (hend : (c :: part).getLast? ≠ some '\\') (ls : List (List Char)) :
    logicalLines pending ((indent ++ c :: part ++ ['\\']) :: ls) =
      logicalLines (pending ++ c :: part) ls := by
  have htrim : Text.trimStart (indent ++ c :: part ++ ['\\']) = c :: part ++ ['\\'] := by
    rw [List.append_assoc, List.cons_append, Text.trimStart_indented hindent hc]
  simp only [logicalLines, htrim, continued?_concat hend]
  rw [List.cons_append, hopens.not_comment, if_neg Bool.false_ne_true]

/-- The last piece ends the entry. -/
theorem logicalLines_last (hopens : Opens pending c) (hindent : Text.allBlank indent)
    (hc : isBlank c = false) (hend : (c :: part).getLast? ≠ some '\\') (ls : List (List Char)) :
    logicalLines pending ((indent ++ c :: part) :: ls) =
      (pending ++ c :: part) :: logicalLines [] ls := by
  simp only [logicalLines, Text.trimStart_indented hindent hc, continued?_of_getLast?_ne hend,
    hopens.not_comment, if_neg Bool.false_ne_true]

/-! ### One entry -/

/-- The lines over which a text is broken are one logical line. -/
theorem logicalLines_broken (h : Broken content block) (hcontent : content.head? = some c)
    (hc : isBlank c = false) (hopens : Opens pending c) (hend : content.getLast? ≠ some '\\')
    (ls : List (List Char)) :
    logicalLines pending (block ++ ls) = (pending ++ content) :: logicalLines [] ls := by
  -- The induction is on the pieces; a piece is pending when the next one comes.
  induction h generalizing pending c with
  | last indent hindent =>
    obtain ⟨tail, rfl⟩ := List.head?_eq_some_iff.mp hcontent
    exact logicalLines_last hopens hindent hc hend ls
  | @piece indent piece rest d block hindent hpiece hbackslash hd _ ih =>
    cases piece with
    | nil => exact absurd rfl hpiece
    | cons first part =>
      obtain rfl : first = c := Option.some.inj hcontent
      have hrest : (d :: rest).getLast? ≠ some '\\' := by
        rwa [List.getLast?_append_of_ne_nil _ (List.cons_ne_nil d rest)] at hend
      have hpending : Opens (pending ++ first :: part) d := .inl (by simp)
      rw [List.cons_append, logicalLines_piece hopens hindent hc hbackslash,
        ih rfl hd hpending hrest, List.append_assoc]

theorem not_isBlank_of_isSeparator (h : isSeparator c) : isBlank c = false := by
  rw [isSeparator, Bool.or_eq_true, beq_iff_eq, beq_iff_eq] at h
  rcases h with rfl | rfl <;> decide

theorem isSeparator_of_isBlank (h : isBlank c) : isSeparator c = false := by
  cases hc : isSeparator c with
  | false => rfl
  | true => exact absurd h (Bool.eq_false_iff.mp (not_isBlank_of_isSeparator hc))

/-- The key and the value of a spelled entry are the entry's. -/
theorem splitEntry_spelled (hw : Writable entry) (h : Spelled entry content) :
    splitEntry content = (entry.1.toList, entry.2.toList) := by
  obtain ⟨before, after, hbefore, hsep, hafter⟩ := h
  have hplain : ∀ c ∈ entry.1.toList ++ before, isSeparator c = false := by
    intro c hc
    rcases List.mem_append.mp hc with hc | hc
    · exact hw.key_plain c hc
    · exact isSeparator_of_isBlank (List.all_eq_true.mp hbefore c hc)
  have hkey : Text.trim (entry.1.toList ++ before) = entry.1.toList := by
    rw [← List.nil_append entry.1.toList, Text.trim_append_append rfl hbefore, hw.key_trimmed,
      List.nil_append]
  rw [splitEntry, Text.splitOnce_append_cons hplain hsep]
  dsimp only
  rw [hkey, Text.trimStart_allBlank_append hafter, hw.value_start]

/-- A spelled entry begins like its key. -/
theorem Spelled.exists_head (hw : Writable entry) (h : Spelled entry content) :
    ∃ c, content.head? = some c ∧ isBlank c = false ∧ Opens [] c := by
  obtain ⟨before, after, hbefore, hsep, hafter⟩ := h
  cases hkey : entry.1.toList with
  | nil => exact absurd hkey hw.key_ne
  | cons c tail =>
    have htrim := hw.key_trimmed
    have hstart := hw.key_start
    rw [hkey] at htrim hstart
    exact ⟨c, rfl, Text.not_isBlank_of_trim_eq htrim, .inr (by simpa [isComment] using hstart)⟩

/-- An entry that can be written does not end in a backslash. -/
theorem Spelled.getLast?_ne (hw : Writable entry) (h : Spelled entry content) :
    content.getLast? ≠ some '\\' := by
  obtain @⟨before, after, sep, -, hsep, hafter⟩ := h
  have hplain : '\\' ∉ sep :: after := by
    rintro (_ | ⟨_, hmem⟩)
    · exact absurd hsep (by decide)
    · exact absurd (List.all_eq_true.mp hafter _ hmem) (by decide)
  rw [← List.cons_append, List.getLast?_append_of_ne_nil _ (by simp), List.getLast?_append]
  cases hvalue : entry.2.toList.getLast? with
  | some d =>
    rw [Option.some_or, ← hvalue]
    exact hw.value_end
  | none => exact fun hlast => hplain (List.mem_of_getLast? hlast)

/-! ### All entries -/

/-- The logical lines of a layout are its entries. -/
theorem logicalLines_layout (h : Layout entries ls) (hw : ∀ e ∈ entries, Writable e) :
    (logicalLines [] ls).map splitEntry = entries.map fun e => (e.1.toList, e.2.toList) := by
  induction h with
  | nil => rfl
  | remark hline _ ih => rw [logicalLines_remark hline, ih hw]
  | entry hspelled hbroken _ ih =>
    obtain ⟨hentry, hentries⟩ := List.forall_mem_cons.mp hw
    obtain ⟨c, hcontent, hc, hopens⟩ := hspelled.exists_head hentry
    rw [logicalLines_broken hbroken hcontent hc hopens (hspelled.getLast?_ne hentry), List.map_cons,
      List.map_cons, List.nil_append, splitEntry_spelled hentry hspelled, ih hentries]

/-- A layout is read as its entries, the later ones over the earlier ones. -/
theorem parse_eq_ofList {text : String} (h : Layout entries ls)
    (htext : Text.Written ls text.toList) (hw : ∀ e ∈ entries, Writable e) :
    parse text = Keyed.ofList entries := by
  have hkeep : ∀ e ∈ entries.map fun e => (e.1.toList, e.2.toList), (!e.1.isEmpty) = true := by
    refine List.forall_mem_map.mpr fun e he => ?_
    rw [Bool.not_eq_true', List.isEmpty_eq_false_iff]
    exact (hw e he).key_ne
  rw [parse, Text.lines_written htext, logicalLines_layout h hw, List.filter_eq_self.mpr hkeep,
    List.map_map]
  exact congrArg Keyed.ofList ((List.map_congr_left fun e _ => by simp).trans (List.map_id _))

/-- **A properties file is read as what is laid out in it**: the keys in the order in which they
first occur, each with its last value. -/
theorem parse_layout {text : String} (h : Layout entries ls) (htext : Text.Written ls text.toList)
    (hw : ∀ e ∈ entries, Writable e) :
    (parse text).keys = (entries.map Prod.fst).eraseDups ∧
      ∀ key, (parse text).get? key = ((entries.filter fun e => e.1 = key).getLast?).map Prod.snd := by
  rw [parse_eq_ofList h htext hw]
  exact ⟨Keyed.keys_ofList entries, fun key => Keyed.get?_ofList entries key⟩

/-- A title that is broken within its key and within its value, and written again at the end. -/
def petEntries : List (String × String) :=
  [("title", "Happy pets"), ("limit", "10"), ("title", "Cats")]

def petLines : List (List Char) :=
  ["# names", "  ti\\", "\ttle : Happy \\", "    pets", "", "limit=10", "  ! again",
    "title = Cats"].map String.toList

/-- The file with both ends of lines, the last line without any. -/
def petFile : String :=
  "# names\r\n  ti\\\n\ttle : Happy \\\r\n    pets\n\nlimit=10\n  ! again\r\ntitle = Cats"

theorem layout_petLines : Layout petEntries petLines := by
  have hpets : Broken "pets".toList ["    pets".toList] := .last "    ".toList rfl
  have hhappy : Broken "tle : Happy pets".toList ["\ttle : Happy \\".toList, "    pets".toList] :=
    .piece ['\t'] "tle : Happy ".toList rfl (by decide) (by decide) rfl hpets
  have htitle : Broken "title : Happy pets".toList
      ["  ti\\".toList, "\ttle : Happy \\".toList, "    pets".toList] :=
    .piece "  ".toList "ti".toList rfl (by decide) (by decide) rfl hhappy
  have hspelledTitle : Spelled ("title", "Happy pets") "title : Happy pets".toList :=
    .mk [' '] [' '] rfl rfl rfl
  have hspelledLimit : Spelled ("limit", "10") "limit=10".toList := .mk [] [] rfl rfl rfl
  have hspelledCats : Spelled ("title", "Cats") "title = Cats".toList := .mk [' '] [' '] rfl rfl rfl
  have hnames : IsRemark "# names".toList := .comment [] " names".toList rfl (.inl rfl)
  have hagain : IsRemark "  ! again".toList := .comment "  ".toList " again".toList rfl (.inr rfl)
  exact .remark hnames <| .entry hspelledTitle htitle <| .remark (.blank rfl) <|
    .entry hspelledLimit (.last [] rfl) <| .remark hagain <|
    .entry hspelledCats (.last [] rfl) .nil

theorem written_petLines : Text.Written petLines petFile.toList :=
  .returnFeed (by decide) <| .feed (by decide) (by decide) <| .returnFeed (by decide) <|
    .feed (by decide) (by decide) <| .feed (by decide) (by decide) <|
    .feed (by decide) (by decide) <| .returnFeed (by decide) <| .last (by decide) (by decide)

theorem writable_petEntries : ∀ e ∈ petEntries, Writable e := by
  simp only [petEntries, List.forall_mem_cons]
  refine ⟨?_, ?_, ?_, List.forall_mem_nil _⟩
  all_goals constructor
  case key_plain => simp [isSeparator]
  case key_plain => simp [isSeparator]
  case key_plain => simp [isSeparator]
  all_goals decide

/-- Two entries, one of them broken over two lines and one given twice, among remarks. -/
theorem parse_petFile :
    Layout petEntries petLines ∧ Text.Written petLines petFile.toList ∧
      (∀ e ∈ petEntries, Writable e) ∧
      (parse petFile).keys = ["title", "limit"] ∧
      (parse petFile).get? "title" = some "Cats" ∧ (parse petFile).get? "limit" = some "10" := by
  obtain ⟨hkeys, hget⟩ := parse_layout layout_petLines written_petLines writable_petEntries
  exact ⟨layout_petLines, written_petLines, writable_petEntries, hkeys.trans (by decide),
    (hget "title").trans (by decide), (hget "limit").trans (by decide)⟩

end Properties

end ApiAssembly
