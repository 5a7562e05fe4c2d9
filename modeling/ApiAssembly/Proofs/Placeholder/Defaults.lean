import ApiAssembly.Output.Filename

/-!
# Proofs — Placeholder — tokens with a default

`key:default` is a key with a default in the environment only.  To the other layers it is the name
of a property like any other, and the environment answers whatever the key.  So the layers in front
of the environment are asked for a property of that name, and not for the key: the default comes
before the values that other layers than the environment have under the key
(`Expander.expand_default`).
-/

namespace ApiAssembly

namespace Text

/-- A text without a character of the class is not cut. -/
theorem splitOnce_eq_none_iff {p : Char → Bool} {cs : List Char} :
    splitOnce p cs = none ↔ ∀ c ∈ cs, p c = false := by
  induction cs with
  | nil => simp [splitOnce]
  | cons c cs ih =>
    cases hc : p c with
    | true => simp [splitOnce, hc]
    | false => simp [splitOnce, hc, ih]

end Text

namespace Placeholder

variable {name read rest : List Char}

/-- The name of a token goes on to the first closing brace. -/
theorem piecesFrom_name (hname : '}' ∉ name) (hne : read.reverse ++ name ≠ []) (rest : List Char) :
    piecesFrom (.name read) (name ++ '}' :: rest) =
      .token (read.reverse ++ name) :: piecesFrom .outside rest := by
  induction name generalizing read with
  | nil =>
    have hread : read.isEmpty = false := by simpa using hne
    rw [List.nil_append, piecesFrom, if_pos rfl, hread, List.append_nil]
    rfl
  | cons c name ih =>
    obtain ⟨hc, hname⟩ := List.ne_and_not_mem_of_not_mem_cons hname
    have hshape : (c :: read).reverse ++ name = read.reverse ++ c :: name := by simp
    rw [List.cons_append, piecesFrom, if_neg (Ne.symm hc), ih hname (hshape ▸ hne), hshape]

/-- A token is one piece. -/
theorem pieces_tokenChars (hname : '}' ∉ name) (hne : name ≠ []) :
    pieces (tokenChars name) = [.token name] :=
  have hne : [].reverse ++ name ≠ [] := hne
  piecesFrom_name hname hne []

theorem tokens_tokenChars (hname : '}' ∉ name) (hne : name ≠ []) :
    tokens (tokenChars name) = [String.ofList name] := by
  rw [tokens, pieces_tokenChars hname hne]
  rfl

theorem opensToken_tokenChars (name : List Char) : opensToken (tokenChars name) = true := by
  rw [opensToken, Text.occurs_iff]
  exact (List.prefix_append ['$', '{'] (name ++ ['}'])).isInfix

end Placeholder

namespace Environment

variable {key : String}

/-- A key without a colon is looked up as it is. -/
theorem lookup?_of_no_colon (v : Environment) (h : ':' ∉ key.toList) :
    v.lookup? key = v.raw? key := by
  have hsplit : Text.splitOnce (· == ':') key.toList = none :=
    Text.splitOnce_eq_none_iff.mpr fun c hc => beq_eq_false_iff_ne.mpr fun he => h (he ▸ hc)
  rw [lookup?, hsplit]

/-- A key with a default always has a value in the environment. -/
theorem lookup?_default (v : Environment) (h : ':' ∉ key.toList) (default : String) :
    v.lookup? (key ++ ":" ++ default) = some ((v.raw? key).getD default) := by
  have hshape : (key ++ ":" ++ default).toList = key.toList ++ ':' :: default.toList := by simp
  have hkey : ∀ c ∈ key.toList, (c == ':') = false :=
    fun c hc => beq_eq_false_iff_ne.mpr fun he => h (he ▸ hc)
  rw [lookup?, hshape, Text.splitOnce_append_cons hkey rfl]
  simp only [String.ofList_toList]

end Environment

namespace Layer

variable {key : String}

/-- What a layer has for a key with a default. -/
def orDefault? (key default : String) : Layer → Option String
  | .system m      => m.get? (key ++ ":" ++ default)
  | .file m        => m.get? (key ++ ":" ++ default)
  | .environment v => some ((v.get? key).getD (v.interpolate default))

/-- Every layer answers a key without a colon from what it holds. -/
theorem resolve?_of_no_colon (h : ':' ∉ key.toList) (l : Layer) : l.resolve? key = l.get? key := by
  cases l with
  | system m => rfl
  | file m => rfl
  | environment v => exact congrArg (Option.map v.interpolate) (v.lookup?_of_no_colon h)

theorem resolve?_default (h : ':' ∉ key.toList) (default : String) (l : Layer) :
    l.resolve? (key ++ ":" ++ default) = l.orDefault? key default := by
  cases l with
  | system m => rfl
  | file m => rfl
  | environment v =>
    rw [resolve?, orDefault?, Environment.resolve?, v.lookup?_default h, Environment.get?,
      Option.map_some, Option.getD_map]

end Layer

namespace Expander

/-- What a value comes to in the place of a token: the passes that are left go over it. -/
def expandValue (e : Expander) (value : String) : String :=
  String.ofList (e.passes (passLimit - 1) value.toList)

/-- A token by itself expands to what its value comes to. -/
theorem expand_tokenText {e : Expander} (haliases : e.aliases = []) {name : String}
    (hne : name ≠ "") (hname : '}' ∉ name.toList) :
    e.expand (tokenText name) = ((e.value? name).map e.expandValue).getD (tokenText name) := by
  have hne : name.toList ≠ [] := fun h => hne (String.toList_eq_nil_iff.mp h)
  have htokens : Placeholder.tokens (Placeholder.tokenChars name.toList) = [name] := by
    rw [Placeholder.tokens_tokenChars hname hne, String.ofList_toList]
  have hexpand : e.expandChars (Placeholder.tokenChars name.toList) =
      e.passes passLimit (Placeholder.tokenChars name.toList) := by
    rw [expandChars, if_pos (Placeholder.opensToken_tokenChars _), replaceAliases, haliases,
      List.foldl_nil]
  rw [expand, tokenText, String.toList_ofList, hexpand, passLimit, passes, htokens,
    Placeholder.substitute, Placeholder.pieces_tokenChars hname hne]
  cases hvalue : e.value? name with
  | none => simp [hvalue]
  | some value => simp [hvalue, expandValue, passLimit]

/-- **What a token with a default expands to.**  The key by itself stands for the value of the first
layer that defines it.  With a default, a layer in front of the environment answers only if it has a
property of the whole name, and the environment always does: if no layer has answered, with its own
value of the key, or else with the default, whatever the other layers have under the key. -/
theorem expand_default {key default : String} (hne : key ≠ "")
    (hkey : ':' ∉ key.toList ∧ '}' ∉ key.toList) (hdefault : '}' ∉ default.toList)
    (layers : List Layer) :
    let e : Expander := { layers }
    let token := key ++ ":" ++ default
    e.expand (tokenText key) = ((firstValue? layers key).map e.expandValue).getD (tokenText key) ∧
    e.expand (tokenText token) =
      ((layers.findSome? (Layer.orDefault? key default)).map e.expandValue).getD (tokenText token) ∧
    ∀ before v after, layers = before ++ .environment v :: after →
      (∀ l ∈ before, l.orDefault? key default = none) →
        (v.get? key = none →
          e.expand (tokenText token) = e.expandValue (v.interpolate default)) ∧
        ((v.get? key).isSome → (∀ l ∈ before, l.get? key = none) →
          e.expand (tokenText token) = e.expand (tokenText key)) := by
  intro e token
  have hkeyValue : e.value? key = firstValue? layers key :=
    congrArg layers.findSome? (funext fun l => l.resolve?_of_no_colon hkey.1)
  have htokenValue : e.value? token = layers.findSome? (Layer.orDefault? key default) :=
    congrArg layers.findSome? (funext fun l => l.resolve?_default hkey.1 default)
  have htoken : token ≠ "" ∧ '}' ∉ token.toList := by simp [token, hkey.2, hdefault]
  have hexpandKey := expand_tokenText (e := e) rfl hne hkey.2
  have hexpandToken := expand_tokenText (e := e) rfl htoken.1 htoken.2
  rw [hkeyValue] at hexpandKey
  rw [htokenValue] at hexpandToken
  refine ⟨hexpandKey, hexpandToken, ?_⟩
  rintro before v after rfl hbefore
  have hanswer : (before ++ .environment v :: after).findSome? (Layer.orDefault? key default) =
      some ((v.get? key).getD (v.interpolate default)) := by
    rw [List.findSome?_append, List.findSome?_eq_none_iff.mpr hbefore]
    rfl
  rw [hanswer] at hexpandToken
  constructor
  · intro hnone
    rw [hexpandToken, hnone]
    rfl
  · intro hsome hfirst
    obtain ⟨value, hvalue⟩ := Option.isSome_iff_exists.mp hsome
    have hfirstValue : firstValue? (before ++ .environment v :: after) key = some value := by
      rw [firstValue?, List.findSome?_append, List.findSome?_eq_none_iff.mpr hfirst]
      simp [Layer.get?, hvalue]
    rw [hexpandToken, hexpandKey, hvalue, hfirstValue]
    rfl

/-! ### Who defines the key -/

/-- The environment defines the key, and the caller behind it. -/
def environmentFirst : List Layer :=
  [.environment { properties := [("k", "application")] }, .system [("k", "caller")]]

theorem expand_default_environmentFirst :
    ("k" ≠ "" ∧ (':' ∉ "k".toList ∧ '}' ∉ "k".toList) ∧ '}' ∉ "d".toList) ∧
      let e : Expander := { layers := environmentFirst }
      e.expand (tokenText ("k" ++ ":" ++ "d")) = e.expand (tokenText "k") :=
  ⟨by decide, ((expand_default (by decide) (by decide) (by decide) environmentFirst).2.2 [] _ _ rfl
    (fun _ h => absurd h List.not_mem_nil)).2 rfl (fun _ h => absurd h List.not_mem_nil)⟩

/-- The caller defines the key, and the environment does not. -/
def callerOnly : Expander where
  layers := [.system [("k", "caller")], .environment {}]

/-- The caller has a property that is called like the token. -/
def tokenDefined : Expander where
  layers := [.system [("k:d", "whole")], .environment { properties := [("k", "application")] }]

/-- The environment defines the empty key, which is no token by itself. -/
def emptyKeyDefined : Expander where
  layers := [.environment { properties := [("", "empty")] }]

/-- A layer has a value for the key, and the default comes before it. -/
theorem expand_default_ne :
    (firstValue? callerOnly.layers "k" = some "caller" ∧
      callerOnly.expand "$\x7bk\x7d" = "caller" ∧ callerOnly.expand "$\x7bk:d\x7d" = "d") ∧
    (firstValue? tokenDefined.layers "k" = some "application" ∧
      tokenDefined.expand "$\x7bk\x7d" = "application" ∧
      tokenDefined.expand "$\x7bk:d\x7d" = "whole") ∧
    (firstValue? emptyKeyDefined.layers "" = some "empty" ∧
      emptyKeyDefined.expand "$\x7b\x7d" = "$\x7b\x7d" ∧
      emptyKeyDefined.expand "$\x7b:d\x7d" = "empty") := by
  decide

end Expander

end ApiAssembly
