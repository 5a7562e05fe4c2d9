import ApiAssembly.Config.Environment
import ApiAssembly.Proofs.Json.InPlace
import ApiAssembly.Proofs.Reading.Roles

/-!
# Proofs — Config — trees as dotted keys

The key of a place in a tree has the names on the way with points between them, and indexes in
brackets.  Where no name is empty or has a point or an opening bracket, different places have
different keys (`stepsChars_injective`), and a tree is written under the keys of its places: a
scalar with its text, and an array with the texts of the scalars right in it
(`Json.mem_leaves_iff`).

So a tree that is written over a map gives these keys these texts and leaves all others alone
(`Json.isFlattened_flattenInto`).  Application files are written one over the other, so a key has
the value that the last file with this key gives it (`Environment.get?_properties_load`).
-/

namespace ApiAssembly

/-! ### Keys of places -/

/-- The key of a place: its names with points between them, and its indexes in brackets. -/
def dottedPlace (p : Place) : String := String.ofList (stepsChars true p)

/-- A name that can be told from the rest of a key: it is not empty, and has no point and no opening
bracket. -/
def IsPlainName (name : String) : Prop := name ≠ "" ∧ '.' ∉ name.toList ∧ '[' ∉ name.toList

instance (name : String) : Decidable (IsPlainName name) := inferInstanceAs (Decidable (_ ∧ _))

/-- All names of a place are plain. -/
def HasPlainNames (p : Place) : Prop := ∀ name, Step.key name ∈ p → IsPlainName name

section Keys

variable {p q : Place} {name name' : String} {first : Bool}

theorem HasPlainNames.tail {s : Step} (h : HasPlainNames (s :: p)) : HasPlainNames p :=
  fun name hname => h name (List.mem_cons_of_mem _ hname)

/-- Different indexes are written with different digits. -/
theorem digitChars_injective : Function.Injective digitChars := by
  intro i i' h
  calc
    i = Nat.ofDigitChars 10 (digitChars i) 0 := Nat.ofDigitChars_ten_toDigits.symm
    _ = Nat.ofDigitChars 10 (digitChars i') 0 := by rw [h]
    _ = i' := Nat.ofDigitChars_ten_toDigits

/-- Behind a name comes nothing that could belong to it. -/
theorem takeWhile_append_stepsChars (hname : IsPlainName name) (p : Place) :
    (name.toList ++ stepsChars false p).takeWhile (fun c => !(c == '.' || c == '[')) =
      name.toList := by
  have hall : ∀ c ∈ name.toList, (!(c == '.' || c == '[')) = true := fun c hc => by
    have hdot : c ≠ '.' := fun he => hname.2.1 (he ▸ hc)
    have hbracket : c ≠ '[' := fun he => hname.2.2 (he ▸ hc)
    simp [hdot, hbracket]
  rw [List.takeWhile_append_of_pos hall]
  cases p with
  | nil => simp [stepsChars]
  | cons s p => cases s <;> simp [stepsChars]

/-- A plain name can be read off the key that begins with it. -/
theorem eq_of_append_stepsChars (hname : IsPlainName name) (hname' : IsPlainName name')
    (h : name.toList ++ stepsChars false p = name'.toList ++ stepsChars false q) :
    name = name' ∧ stepsChars false p = stepsChars false q := by
  have hnames : name.toList = name'.toList := by
    rw [← takeWhile_append_stepsChars hname p, h, takeWhile_append_stepsChars hname']
  exact ⟨String.toList_inj.mp hnames, List.append_cancel_left (hnames ▸ h)⟩

/-- Behind the digits of an index comes the bracket that ends it. -/
theorem splitOnce_index (i : Nat) (rest : List Char) :
    Text.splitOnce (· == ']') (digitChars i ++ ']' :: rest) = some (digitChars i, rest) := by
  refine Text.splitOnce_append_cons (fun c hc => beq_eq_false_iff_ne.mpr fun he => ?_) rfl
  exact absurd (Nat.isDigit_of_mem_toDigits (by decide) (by decide) (he ▸ hc)) (by decide)

/-- An index can be read off the key that begins with it. -/
theorem eq_of_index_stepsChars {i i' : Nat}
    (h : stepsChars first (.index i :: p) = stepsChars first (.index i' :: q)) :
    i = i' ∧ stepsChars false p = stepsChars false q := by
  have hsplit := congrArg (Text.splitOnce (· == ']')) (List.cons.inj h).2
  obtain ⟨hdigits, hrest⟩ := Prod.mk.inj (Option.some.inj
    ((splitOnce_index i _).symm.trans (hsplit.trans (splitOnce_index i' _))))
  exact ⟨digitChars_injective hdigits, hrest⟩

theorem toList_ne_nil (hname : IsPlainName name) : name.toList ≠ [] :=
  fun h => hname.1 (String.toList_eq_nil_iff.mp h)

/-- A name and an index are written apart. -/
theorem stepsChars_key_ne_index (hname : IsPlainName name) {i : Nat} :
    stepsChars first (.key name :: p) ≠ stepsChars first (.index i :: q) := by
  intro h
  cases first with
  | false => simp [stepsChars] at h
  | true =>
    obtain ⟨c, cs, hchars⟩ := List.exists_cons_of_ne_nil (toList_ne_nil hname)
    rw [stepsChars, stepsChars, hchars] at h
    have hc : c = '[' := (List.cons.inj h).1
    exact hname.2.2 (by rw [hchars, hc]; exact List.mem_cons_self)

theorem stepsChars_cons_ne_nil {s : Step} (hp : HasPlainNames (s :: p)) :
    stepsChars first (s :: p) ≠ [] := by
  cases s with
  | index i => exact List.cons_ne_nil _ _
  | key name =>
    intro h
    have hname := toList_ne_nil (hp name List.mem_cons_self)
    exact hname (List.append_eq_nil_iff.mp (List.append_eq_nil_iff.mp h).1).2

/-- **Different places have different keys.** -/
theorem stepsChars_injective (hp : HasPlainNames p) (hq : HasPlainNames q)
    (h : stepsChars first p = stepsChars first q) : p = q := by
  induction p generalizing q first with
  | nil =>
    cases q with
    | nil => rfl
    | cons s q => exact absurd h.symm (stepsChars_cons_ne_nil hq)
  | cons s p ih =>
    cases q with
    | nil => exact absurd h (stepsChars_cons_ne_nil hp)
    | cons s' q =>
      -- The first step can be told from the key: a name ends where no character of a name stands,
      -- and the digits of an index end at its bracket.
      cases s with
      | key name =>
        have hname := hp name List.mem_cons_self
        cases s' with
        | index i => exact absurd h (stepsChars_key_ne_index hname)
        | key name' =>
          have hname' := hq name' List.mem_cons_self
          rw [stepsChars, stepsChars, List.append_assoc, List.append_assoc] at h
          obtain ⟨rfl, hrest⟩ := eq_of_append_stepsChars hname hname' (List.append_cancel_left h)
          rw [ih hp.tail hq.tail hrest]
      | index i =>
        cases s' with
        | key name' =>
          exact absurd h.symm (stepsChars_key_ne_index (hq name' List.mem_cons_self))
        | index i' =>
          obtain ⟨rfl, hrest⟩ := eq_of_index_stepsChars h
          rw [ih hp.tail hq.tail hrest]

/-- Different places have different keys. -/
theorem dottedPlace_injective (hp : HasPlainNames p) (hq : HasPlainNames q)
    (h : dottedPlace p = dottedPlace q) : p = q :=
  stepsChars_injective hp hq (String.ofList_inj.mp h)

end Keys

/-! ### The key of a place below another key -/

/-- The key of a part below another key. -/
def partKey (above : String) : Step → String
  | .key name => dottedKey above name
  | .index i  => indexedKey above i

/-- The key of a place below another key. -/
def keyBelow (above : String) (p : Place) : String :=
  above ++ String.ofList (stepsChars above.isEmpty p)

theorem keyBelow_nil (above : String) : keyBelow above [] = above := String.append_empty

theorem keyBelow_empty (p : Place) : keyBelow "" p = dottedPlace p := String.empty_append

/-- The key of a place goes on from the key of its first step. -/
theorem keyBelow_cons {s : Step} {p : Place} (hp : HasPlainNames (s :: p)) (above : String) :
    keyBelow above (s :: p) = keyBelow (partKey above s) p := by
  cases s with
  | index i =>
    have hfull : (indexedKey above i).isEmpty = false := by simp [indexedKey]
    rw [keyBelow, keyBelow, partKey, hfull, ← String.toList_inj]
    simp [indexedKey, stepsChars]
  | key name =>
    have hname := (hp name List.mem_cons_self).1
    have hfull : (dottedKey above name).isEmpty = false := by
      rw [dottedKey]
      split <;> simp [hname]
    rw [keyBelow, keyBelow, partKey, hfull, ← String.toList_inj, dottedKey]
    cases habove : above.isEmpty with
    | true => simp [String.isEmpty_iff.mp habove, stepsChars]
    | false => simp [stepsChars]

namespace Json

/-! ### Trees, part by part -/

/-- The parts of a value, with the steps that lead to them. -/
def parts : Json → List (Step × Json)
  | .obj fields => fields.map fun f => (.key f.1, f.2)
  | .arr items  => items.zipIdx.map fun x => (.index x.2, x.1)
  | _           => []

/-- The text of a node of a tree: of a scalar its own, of an array those of the scalars right in it
with commas between them; null and objects have none. -/
def ownText? : Json → Option String
  | .arr items => some (",".intercalate (items.filterMap scalarText?))
  | j          => j.scalarText?

/-- Every name in a tree is plain, and no object has a name twice. -/
def IsPlain (j : Json) : Prop :=
  ∀ names ∈ j.keyLists, names.Nodup ∧ ∀ name ∈ names, IsPlainName name

instance (j : Json) : Decidable j.IsPlain := inferInstanceAs (Decidable (∀ _ ∈ _, _))

/-- Induction over a tree, part by part. -/
theorem induct_parts {P : Json → Prop} (h : ∀ j, (∀ part ∈ j.parts, P part.2) → P j) (j : Json) :
    P j := by
  induction j using induct with
  | null | bool _ | num _ | str _ => exact h _ (List.forall_mem_nil _)
  | arr items ih =>
    refine h _ (List.forall_mem_map.mpr fun x hx => ih x.1 ?_)
    exact List.fst_mem_of_mem_zipIdx hx
  | obj fields ih => exact h _ (List.forall_mem_map.mpr fun f hf => ih f hf)

theorem leavesOfFields_eq (above : String) (fields : List (String × Json)) :
    leavesOfFields above fields = fields.flatMap fun f => f.2.leaves (dottedKey above f.1) := by
  induction fields with
  | nil => rfl
  | cons f fields ih => rw [leavesOfFields, ih, List.flatMap_cons]

theorem leavesOfItems_eq (above : String) (i : Nat) (items : List Json) :
    leavesOfItems above i items =
      (items.zipIdx i).flatMap fun x => x.1.leaves (indexedKey above x.2) := by
  induction items generalizing i with
  | nil => rfl
  | cons x items ih => rw [leavesOfItems, ih, List.zipIdx_cons, List.flatMap_cons]

/-- A tree is written part by part, and then with its own text. -/
theorem leaves_eq (above : String) (j : Json) : j.leaves above =
    j.parts.flatMap (fun part => part.2.leaves (partKey above part.1)) ++
      (j.ownText?.map fun text => (above, text)).toList := by
  cases j with
  | null | num _ | str _ => rfl
  | bool b => cases b <;> rfl
  | arr items =>
    rw [leaves, leavesOfItems_eq, parts, List.flatMap_map]
    rfl
  | obj fields =>
    rw [leaves, leavesOfFields_eq, parts, List.flatMap_map]
    exact (List.append_nil _).symm

variable {j x : Json} {s : Step} {p q : Place} {key text : String}

theorem IsPlain.nodup_keys {fields : List (String × Json)} (h : (obj fields).IsPlain) :
    (Keyed.keys fields).Nodup :=
  (h _ List.mem_cons_self).1

/-- The parts of a plain tree are what its steps lead to. -/
theorem mem_parts_iff (h : j.IsPlain) : (s, x) ∈ j.parts ↔ j.part? s = some x := by
  cases j with
  | null | bool _ | num _ | str _ => cases s <;> simp [parts, part?]
  | arr items =>
    cases s with
    | key name => simp [parts, part?]
    | index i => simp [parts, part?, List.mem_zipIdx_iff_getElem?]
  | obj fields =>
    cases s with
    | index i => simp [parts, part?]
    | key name =>
      have hmem : (Step.key name, x) ∈ (obj fields).parts ↔ (name, x) ∈ fields := by
        simp [parts]
      rw [hmem, part?]
      exact ⟨fun he => Keyed.get?_of_mem h.nodup_keys he, Keyed.mem_of_get?⟩

theorem IsPlain.part (h : j.IsPlain) (hx : j.part? s = some x) : x.IsPlain := by
  have hmem := (mem_parts_iff h).mpr hx
  cases j with
  | null | bool _ | num _ | str _ => cases hmem
  | arr items =>
    obtain ⟨y, hy, he⟩ := List.mem_map.mp hmem
    obtain ⟨-, rfl⟩ := Prod.mk.inj he
    rw [IsPlain, keyLists, keyListsOfItems_eq, List.forall_mem_flatMap] at h
    exact h y.1 (List.fst_mem_of_mem_zipIdx hy)
  | obj fields =>
    obtain ⟨f, hf, he⟩ := List.mem_map.mp hmem
    obtain ⟨-, rfl⟩ := Prod.mk.inj he
    rw [IsPlain, keyLists, keyListsOfFields_eq, List.forall_mem_cons, List.forall_mem_flatMap] at h
    exact h.2 f hf

theorem IsPlain.name (h : j.IsPlain) {name : String} (hx : j.part? (.key name) = some x) :
    IsPlainName name := by
  cases j with
  | null | bool _ | num _ | str _ | arr _ => cases hx
  | obj fields => exact (h _ List.mem_cons_self).2 name (List.mem_map_of_mem (Keyed.mem_of_get? hx))

/-- The names on the way to a node are plain. -/
theorem IsPlain.hasPlainNames (h : j.IsPlain) (hx : j.at? p = some x) : HasPlainNames p := by
  induction p generalizing j with
  | nil => exact nofun
  | cons s p ih =>
    obtain ⟨y, hy, hx⟩ := Option.bind_eq_some_iff.mp hx
    intro name hname
    rcases List.mem_cons.mp hname with rfl | hname
    · exact h.name hy
    · exact ih (h.part hy) hx name hname

/-! ### What is written of a tree -/

/-- **What is written of a tree**: under the key of each node with a text this text. -/
theorem mem_leaves_iff (h : j.IsPlain) (above : String) : (key, text) ∈ j.leaves above ↔
    ∃ p x, j.at? p = some x ∧ x.ownText? = some text ∧ key = keyBelow above p := by
  induction j using induct_parts generalizing above with
  | h j ih =>
    -- A part is written below the key of the step to it, so the key above goes along.
    rw [leaves_eq, List.mem_append, List.mem_flatMap]
    constructor
    · rintro (⟨⟨s, y⟩, hy, hmem⟩ | hown)
      · have hpart := (mem_parts_iff h).mp hy
        obtain ⟨p, x, hx, htext, rfl⟩ := (ih _ hy (h.part hpart) _).mp hmem
        have hat : j.at? (s :: p) = some x := Option.bind_eq_some_iff.mpr ⟨y, hpart, hx⟩
        exact ⟨s :: p, x, hat, htext, (keyBelow_cons (h.hasPlainNames hat) above).symm⟩
      · obtain ⟨_, htext, he⟩ := Option.map_eq_some_iff.mp (Option.mem_toList.mp hown)
        obtain ⟨rfl, rfl⟩ := Prod.mk.inj he
        exact ⟨[], j, rfl, htext, (keyBelow_nil above).symm⟩
    · rintro ⟨p, x, hx, htext, rfl⟩
      cases p with
      | nil =>
        obtain rfl := Option.some.inj hx
        rw [keyBelow_nil]
        exact .inr (Option.mem_toList.mpr (Option.map_eq_some_iff.mpr ⟨text, htext, rfl⟩))
      | cons s p =>
        obtain ⟨y, hpart, hrest⟩ := Option.bind_eq_some_iff.mp hx
        have hy := (mem_parts_iff h).mpr hpart
        refine .inl ⟨(s, y), hy, (ih _ hy (h.part hpart) _).mpr ⟨p, x, hrest, htext, ?_⟩⟩
        exact keyBelow_cons (h.hasPlainNames hx) above

/-- A tree gives a key a text: the node in the place of the key has it. -/
def Gives (j : Json) (key text : String) : Prop :=
  ∃ p x, j.at? p = some x ∧ dottedPlace p = key ∧ x.ownText? = some text

/-- A map is another one with a tree written over it: under the key of each scalar but null its
text, under that of each array the texts of the scalars right in it, and under all other keys what
was there.  Nodes in different places have different keys. -/
structure IsFlattened (j : Json) (m m' : Keyed String) : Prop where
  given : ∀ key text, j.Gives key text → m'.get? key = some text
  kept : ∀ key, (∀ text, ¬ j.Gives key text) → m'.get? key = m.get? key
  apart : ∀ p q, (j.at? p).isSome → (j.at? q).isSome → dottedPlace p = dottedPlace q → p = q

/-- A plain tree is written under the keys of its places. -/
theorem mem_leaves_empty_iff (h : j.IsPlain) : (key, text) ∈ j.leaves "" ↔ j.Gives key text := by
  simp only [mem_leaves_iff h, keyBelow_empty, Gives, eq_comm (a := key)]
  refine exists₂_congr fun p x => and_congr_right fun _ => and_comm

/-- One node stands in the place of a key. -/
theorem Gives.unique (h : j.IsPlain) {text' : String} (hg : j.Gives key text)
    (hg' : j.Gives key text') : text = text' := by
  obtain ⟨p, x, hx, hp, htext⟩ := hg
  obtain ⟨q, y, hy, hq, htext'⟩ := hg'
  obtain rfl := dottedPlace_injective (h.hasPlainNames hx) (h.hasPlainNames hy) (hp.trans hq.symm)
  obtain rfl := Option.some.inj (hx.symm.trans hy)
  exact Option.some.inj (htext.symm.trans htext')

/-- What a tree that is written over nothing has under a key is what it gives the key. -/
theorem get?_flattenInto_nil_iff (h : j.IsPlain) :
    (j.flattenInto []).get? key = some text ↔ j.Gives key text := by
  rw [← mem_leaves_empty_iff h]
  constructor
  · exact fun hget => Keyed.mem_of_mem_ofList (Keyed.mem_of_get? hget)
  · intro hmem
    -- The last entry with the key counts, and it has the text of the same node as any other.
    have hkey : key ∈ (j.flattenInto []).keys :=
      Keyed.mem_keys_extend.mpr (.inr (List.mem_map_of_mem hmem))
    obtain ⟨text', htext'⟩ : ∃ text', (j.flattenInto []).get? key = some text' :=
      Option.ne_none_iff_exists'.mp fun hnone => Keyed.get?_eq_none_iff.mp hnone hkey
    have hmem' := Keyed.mem_of_mem_ofList (Keyed.mem_of_get? htext')
    rw [mem_leaves_empty_iff h] at hmem hmem'
    rw [htext', hmem'.unique h hmem]

/-- A tree that is written over a map comes before what was there. -/
theorem get?_flattenInto (j : Json) (m : Keyed String) (key : String) :
    (j.flattenInto m).get? key = ((j.flattenInto []).get? key).or (m.get? key) :=
  Keyed.get?_extend_eq m (j.leaves "") key

/-- **A tree is written over a map** under the keys of its places, and nowhere else. -/
theorem isFlattened_flattenInto (h : j.IsPlain) (m : Keyed String) :
    IsFlattened j m (j.flattenInto m) where
  given key text hgives := by
    rw [get?_flattenInto, (get?_flattenInto_nil_iff h).mpr hgives, Option.some_or]
  kept key hnone := by
    have hnone : (j.flattenInto []).get? key = none :=
      Option.eq_none_iff_forall_ne_some.mpr fun text htext =>
        hnone text ((get?_flattenInto_nil_iff h).mp htext)
    rw [get?_flattenInto, hnone, Option.none_or]
  apart p q hp hq hpq := by
    obtain ⟨x, hx⟩ := Option.isSome_iff_exists.mp hp
    obtain ⟨y, hy⟩ := Option.isSome_iff_exists.mp hq
    exact dottedPlace_injective (h.hasPlainNames hx) (h.hasPlainNames hy) hpq

end Json

/-! ### Application files -/

namespace Environment

/-- The tree in an application file, where there is a file that can be read. -/
def treeIn? (files : FileTree) (dir : String) (file : String × SourceFormat) : Option Json :=
  if files.isFile (PathText.join dir file.1) then
    readTree? files (PathText.join dir file.1) file.2
  else none

/-- The trees in the application files of a directory, in the order in which they are read. -/
def trees (files : FileTree) (dir : String) (environments : List String) : List Json :=
  (fileNames environments).filterMap (treeIn? files dir)

variable {files : FileTree} {dir : String} {read : Keyed String × List Warning}

/-- A file that can be read is written over what was read so far. -/
theorem fst_loadFile (file : String × SourceFormat) : (loadFile files dir read file).1 =
    ((treeIn? files dir file).map fun j => j.flattenInto read.1).getD read.1 := by
  rw [loadFile, treeIn?]
  cases hfile : files.isFile (PathText.join dir file.1) with
  | false => rfl
  | true =>
    cases htree : readTree? files (PathText.join dir file.1) file.2 with
    | none => simp
    | some j => simp

/-- The files are written one over the other. -/
theorem fst_foldl_loadFile (fs : List (String × SourceFormat)) :
    (fs.foldl (loadFile files dir) read).1 =
      (fs.filterMap (treeIn? files dir)).foldl Json.flattenInto read.1 := by
  induction fs generalizing read with
  | nil => rfl
  | cons file fs ih =>
    rw [List.foldl_cons, ih, fst_loadFile, List.filterMap_cons]
    cases treeIn? files dir file <;> rfl

/-- **The last tree that has a key** gives it its value. -/
theorem get?_foldl_flattenInto (js : List Json) (m : Keyed String) (key : String) :
    (js.foldl Json.flattenInto m).get? key =
      (js.reverse.findSome? fun j => (j.flattenInto []).get? key).or (m.get? key) := by
  induction js generalizing m with
  | nil => rfl
  | cons j js ih =>
    rw [List.foldl_cons, ih, Json.get?_flattenInto, List.reverse_cons, List.findSome?_append,
      Option.or_assoc]
    cases hj : (j.flattenInto []).get? key <;> simp [hj]

/-- **A key of the application files** has the value that the last file with this key gives it. -/
theorem get?_properties_load (environments : List String) (exported : List (String × String))
    (key : String) : (load files dir environments exported).1.properties.get? key =
      (trees files dir environments).reverse.findSome? fun j => (j.flattenInto []).get? key := by
  have hproperties : (load files dir environments exported).1.properties =
      (trees files dir environments).foldl Json.flattenInto [] := by
    have hfold := @fst_foldl_loadFile files dir ([], []) (fileNames environments)
    rw [trees, ← hfold, load]
  rw [hproperties, get?_foldl_flattenInto, Keyed.get?_nil, Option.or_none]

/-- **Trees are written under the keys of their places** over whatever map there is, and of the
application files that have a key the last one gives it its value. -/
theorem flattened_and_last_wins :
    (∀ (j : Json) (m : Keyed String), j.IsPlain → j.IsFlattened m (j.flattenInto m)) ∧
      ∀ (files : FileTree) (dir : String) (environments : List String)
        (exported : List (String × String)) (key : String),
        (load files dir environments exported).1.properties.get? key =
          (trees files dir environments).reverse.findSome? fun j => (j.flattenInto []).get? key :=
  ⟨fun _ m h => Json.isFlattened_flattenInto h m,
    fun _ _ environments exported key => get?_properties_load environments exported key⟩

/-- A tree with an array of a number, a null and an object. -/
def portTree : Json :=
  .obj [("server", .obj [("ports", .arr [.num (.int 80), .null, .obj [("name", .str "a")]])]),
    ("debug", .null)]

/-- A map with a key of an array, one of a null and one of an object. -/
def portMap : Keyed String := [("debug", "on"), ("server.ports", "1,2"), ("server", "s")]

/-- A directory with an application file, and one of an environment. -/
def portFiles : FileTree where
  entries := [(["application.json"],
      .file (.text "\x7b\"server\": \x7b\"ports\": [80], \"name\": \"a\"\x7d\x7d")),
    (["application-prod.json"], .file (.text "\x7b\"server\": \x7b\"ports\": [81, 82]\x7d\x7d"))]

/-- The array gets a new value, the null and the object leave the old ones, and of two files the
last one with a key counts. -/
theorem flattened_and_last_wins_ports :
    portTree.IsPlain ∧ portTree.IsFlattened portMap (portTree.flattenInto portMap) ∧
      portTree.flattenInto portMap =
        [("debug", "on"), ("server.ports", "80"), ("server", "s"), ("server.ports[0]", "80"),
          ("server.ports[2].name", "a")] ∧
      (load portFiles "." ["prod"] []).1.properties.get? "server.ports" = some "81,82" ∧
      (load portFiles "." ["prod"] []).1.properties.get? "server.name" = some "a" := by
  have hplain : portTree.IsPlain := by decide +kernel
  obtain ⟨hflattened, hlast⟩ := flattened_and_last_wins
  refine ⟨hplain, hflattened portTree portMap hplain, by decide +kernel, ?_, ?_⟩
  · rw [hlast]
    decide +kernel
  · rw [hlast]
    decide +kernel

end Environment

end ApiAssembly
