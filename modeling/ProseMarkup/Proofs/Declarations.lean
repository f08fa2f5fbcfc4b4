import ProseMarkup.Proofs.HeaderForm
import ProseMarkup.Proofs.Membership
import ProseMarkup.Proofs.StoredStyle

/-!
# Declarations written out

The properties of a rule are written out one after another, each as `name: value;`, and read again as the
body of a block. A value that has been checked cannot end its declaration early. A name cannot either as long
as it is made of the characters of keys; the names among the patterns of a whitelist are, but a pattern with
a star permits names that go on with anything, so a checked rule may carry a declaration of its own making.

* `StyleSheet.pairAt?_iff` : the form of a pair, read in both directions.
* `StyleSheet.declarations` : properties written out.
* `StyleSheet.pairs_declarations` : **they are read again one by one**.
* `StyleSheet.names_of_declarations` : **a valid rule declares no names but its own**, if no pattern has a
  star, or if its names are made of the characters of keys.
* `StyleSheet.smuggled_declaration` : a valid rule that declares another name.
-/

namespace ProseMarkup.StyleSheet

open Text (isAsciiBlank Stops stops_cons)

/-! ### Classes of characters -/

theorem le_of_isAsciiBlank {c : Char} (h : isAsciiBlank c = true) : c.toNat ≤ 32 := by
  simp only [isAsciiBlank, Bool.or_eq_true, Bool.and_eq_true, decide_eq_true_eq] at h
  rcases h with rfl | ⟨-, h⟩
  · decide
  · omega

theorem isKeyChar_of_isAsciiBlank {c : Char} (h : isAsciiBlank c = true) : isKeyChar c = false := by
  have hlow : ∀ n ≤ 32, isKeyChar (Char.ofNat n) = false := by decide
  rw [← Char.ofNat_toNat c]
  exact hlow c.toNat (le_of_isAsciiBlank h)

/-- What is neither of the two delimiters can be in a value. -/
theorem isValueChar_of {p : Char → Bool} (hsemicolon : p ';' = false) (hcolon : p ':' = false)
    {c : Char} (h : p c = true) : isValueChar c = true := by
  rw [isValueChar, Bool.and_eq_true, decide_eq_true_eq, decide_eq_true_eq]
  constructor
  · rintro rfl
    rw [hsemicolon] at h
    cases h
  · rintro rfl
    rw [hcolon] at h
    cases h

theorem all_isValueChar {p : Char → Bool} (hsemicolon : p ';' = false) (hcolon : p ':' = false)
    {s : Text} (h : s.all p = true) : s.all isValueChar = true :=
  List.all_eq_true.2 fun c hc => isValueChar_of hsemicolon hcolon (List.all_eq_true.1 h c hc)

/-! ### The form of a pair -/

/-- A pair is read off a text that begins with it. -/
theorem pairAt?_form {key blanks raw : Text} (hne : key ≠ []) (hkey : key.all isKeyChar = true)
    (hblanks : AreBlanks blanks) (hraw : raw.all isValueChar = true) (rest : Text) :
    pairAt? (key ++ (blanks ++ ':' :: (raw ++ ';' :: rest))) = some ((key, Text.strip raw), rest) := by
  have hcolon : Stops isKeyChar (blanks ++ ':' :: (raw ++ ';' :: rest)) := by
    cases blanks with
    | nil => exact stops_cons rfl _
    | cons c blanks =>
      rw [AreBlanks, List.all_cons, Bool.and_eq_true] at hblanks
      exact stops_cons (isKeyChar_of_isAsciiBlank hblanks.1) _
  have hend : Stops isValueChar (';' :: rest) := stops_cons rfl rest
  have hempty : key.isEmpty = false := by
    cases key with
    | nil => exact absurd rfl hne
    | cons c key => rfl
  rw [pairAt?, Text.takeWhile_run hkey hcolon, Text.dropWhile_run hkey hcolon,
    Text.dropWhile_run hblanks (stops_cons rfl _), hempty, if_neg Bool.false_ne_true]
  simp only [Text.dropWhile_run hraw hend, Text.takeWhile_run hraw hend]

/-- A text that a pair is read off begins with it. -/
theorem exists_of_pairAt? {s key value rest : Text} (h : pairAt? s = some ((key, value), rest)) :
    ∃ blanks raw, s = key ++ (blanks ++ ':' :: (raw ++ ';' :: rest)) ∧ key ≠ [] ∧
      key.all isKeyChar = true ∧ AreBlanks blanks ∧ raw.all isValueChar = true ∧
      value = Text.strip raw := by
  rw [pairAt?.eq_def] at h
  dsimp only at h
  split at h
  · cases h
  · next hne =>
    obtain ⟨hs, hkey, -⟩ := Text.exists_run isKeyChar s
    obtain ⟨hgap, hblanks, -⟩ := Text.exists_run isAsciiBlank (s.dropWhile isKeyChar)
    split at h
    · next t ht =>
      obtain ⟨hvalue, hraw, -⟩ := Text.exists_run isValueChar t
      split at h
      · next rest' hrest =>
        cases h
        refine ⟨_, t.takeWhile isValueChar, ?_, ?_, hkey, hblanks, hraw, rfl⟩
        · rw [← hrest, ← hvalue, ← ht, ← hgap, ← hs]
        · intro hnil
          rw [hnil] at hne
          exact hne rfl
      · cases h
    · cases h

theorem pairAt?_iff {s key value rest : Text} :
    pairAt? s = some ((key, value), rest) ↔
      ∃ blanks raw, s = key ++ (blanks ++ ':' :: (raw ++ ';' :: rest)) ∧ key ≠ [] ∧
        key.all isKeyChar = true ∧ AreBlanks blanks ∧ raw.all isValueChar = true ∧
        value = Text.strip raw := by
  constructor
  · exact exists_of_pairAt?
  · rintro ⟨blanks, raw, rfl, hne, hkey, hblanks, hraw, rfl⟩
    exact pairAt?_form hne hkey hblanks hraw rest

theorem pairs_cons_some {s rest : Text} {pair : Text × Text} (h : pairAt? s = some (pair, rest)) :
    pairs s = pair :: pairs rest := by
  cases s with
  | nil => cases h
  | cons c s =>
    rw [pairs]
    split
    · next h' =>
      rw [h] at h'
      cases h'
      rfl
    · next h' =>
      rw [h] at h'
      cases h'

theorem pairs_cons_none {c : Char} {s : Text} (h : pairAt? (c :: s) = none) :
    pairs (c :: s) = pairs s := by
  rw [pairs]
  split
  · next h' =>
    rw [h] at h'
    cases h'
  · rfl

/-- No pair begins in a value. -/
theorem pairAt?_value {s : Text} (hs : s.all isValueChar = true) (rest : Text) :
    pairAt? (s ++ ';' :: rest) = none := by
  cases h : pairAt? (s ++ ';' :: rest) with
  | none => rfl
  | some found =>
    obtain ⟨⟨key, value⟩, rest'⟩ := found
    obtain ⟨blanks, raw, heq, -, hkey, hblanks, -, -⟩ := exists_of_pairAt? h
    have hbefore : (key ++ blanks).all isValueChar = true := by
      rw [List.all_append, all_isValueChar rfl rfl hkey, all_isValueChar rfl rfl hblanks]
      rfl
    rw [← List.append_assoc] at heq
    obtain ⟨-, hdelimiter, -⟩ := Text.run_injective hs rfl hbefore rfl heq
    cases hdelimiter

/-- So what is left of a declaration that is no pair is passed over. -/
theorem pairs_value {s : Text} (hs : s.all isValueChar = true) (rest : Text) :
    pairs (s ++ ';' :: rest) = pairs rest := by
  induction s with
  | nil => exact pairs_cons_none (pairAt?_value hs rest)
  | cons c s ih =>
    have hnone : pairAt? (c :: (s ++ ';' :: rest)) = none := pairAt?_value hs rest
    rw [List.all_cons, Bool.and_eq_true] at hs
    rw [List.cons_append, pairs_cons_none hnone, ih hs.2]

/-! ### Writing and reading -/

/-- A property written out. -/
def declaration (property : Text × Text) : Text :=
  property.1 ++ ": ".toList ++ property.2 ++ [';']

/-- Properties written out, one after another. -/
def declarations (props : List (Text × Text)) : Text :=
  props.flatMap declaration

/-- What is read of a declaration: nothing if it has no name. -/
def readDeclaration (property : Text × Text) : List (Text × Text) :=
  if property.1.isEmpty then [] else [(property.1, Text.strip property.2)]

/-- Whether a property is written out in such a way that its delimiters are the only ones. -/
def isDeclarable (property : Text × Text) : Bool :=
  property.1.all isKeyChar && property.2.all isValueChar

theorem pairs_declaration {p : Text × Text} (hp : isDeclarable p = true) (rest : Text) :
    pairs (declaration p ++ rest) = readDeclaration p ++ pairs rest := by
  obtain ⟨name, value⟩ := p
  rw [isDeclarable, Bool.and_eq_true] at hp
  have hraw : (' ' :: value).all isValueChar = true := hp.2
  have hform : declaration (name, value) ++ rest =
      name ++ ([] ++ ':' :: (' ' :: value ++ ';' :: rest)) := by
    simp [declaration]
  rw [hform]
  cases name with
  | nil =>
    have hcolon : pairAt? (':' :: (' ' :: value ++ ';' :: rest)) = none := rfl
    rw [List.nil_append, List.nil_append, pairs_cons_none hcolon, pairs_value hraw]
    rfl
  | cons c name =>
    have hpair : pairAt? (c :: name ++ ([] ++ ':' :: (' ' :: value ++ ';' :: rest))) =
        some ((c :: name, Text.strip (' ' :: value)), rest) :=
      pairAt?_form (List.cons_ne_nil c name) hp.1 (show AreBlanks [] from rfl) hraw rest
    rw [pairs_cons_some hpair]
    rfl

/-- **Properties that are written out are read again one by one**, those without a name left out. -/
theorem pairs_declarations {props : List (Text × Text)} (h : props.all isDeclarable = true) :
    pairs (declarations props) = props.flatMap readDeclaration := by
  induction props with
  | nil => rw [declarations, List.flatMap_nil, List.flatMap_nil, pairs]
  | cons p props ih =>
    rw [List.all_cons, Bool.and_eq_true] at h
    rw [declarations, List.flatMap_cons, List.flatMap_cons, pairs_declaration h.1, ← ih h.2,
      declarations]

/-! ### Names -/

/-- Only names of pairs are names of properties. -/
theorem mem_keys_permittedProps {body name : Text} {w : Whitelist}
    (h : name ∈ (permittedProps body w).keys) : name ∈ (pairs body).map Prod.fst := by
  obtain ⟨p, hp, rfl⟩ := List.mem_map.1 h
  exact List.mem_map_of_mem (mem_pairs_of_mem_permittedProps hp).1

theorem name_of_readDeclaration {p q : Text × Text} (h : q ∈ readDeclaration p) : q.1 = p.1 := by
  rw [readDeclaration] at h
  split at h
  · cases h
  · rw [List.mem_singleton.1 h]

/-- Properties written out so are read without any other name. -/
theorem mem_names_of_mem_keys {props : List (Text × Text)} (h : props.all isDeclarable = true)
    {w : Whitelist} {name : Text} (hname : name ∈ (permittedProps (declarations props) w).keys) :
    name ∈ props.map Prod.fst := by
  obtain ⟨q, hq, rfl⟩ := List.mem_map.1 (mem_keys_permittedProps hname)
  rw [pairs_declarations h] at hq
  obtain ⟨p, hp, hread⟩ := List.mem_flatMap.1 hq
  rw [name_of_readDeclaration hread]
  exact List.mem_map_of_mem hp

/-! ### Rules -/

/-- A pattern made of the characters of keys, with or without a star at its end. -/
def IsNamePattern (pattern : Text) : Prop :=
  ∃ name, name.all isKeyChar = true ∧ (pattern = name ∨ pattern = name ++ ['*'])

/-- Without stars, only names made of the characters of keys are permitted. -/
theorem isKeyChar_of_permits {patterns : List Text} (hpatterns : ∀ p ∈ patterns, IsNamePattern p)
    (hexact : ∀ p ∈ patterns, Whitelist.isWildcard p = false) {name : Text}
    (h : (Whitelist.ofPatterns patterns).permits name = true) : name.all isKeyChar = true := by
  have hstar (beginning : Text) : beginning ++ ['*'] ∉ patterns := by
    intro hmem
    have hwildcard := Whitelist.isWildcard_iff.2 ⟨beginning, rfl⟩
    rw [hexact _ hmem] at hwildcard
    cases hwildcard
  rcases Whitelist.permits_ofPatterns.1 h with ⟨hmem, -⟩ | ⟨beginning, hmem, -⟩
  · obtain ⟨n, hn, rfl | rfl⟩ := hpatterns name hmem
    · exact hn
    · exact absurd hmem (hstar n)
  · exact absurd hmem (hstar beginning)

theorem isValueChar_of_isSafe {s : Text} (h : PropertyValue.isSafe s = true) :
    s.all isValueChar = true := by
  rw [PropertyValue.isSafe, Bool.and_eq_true] at h
  exact all_isValueChar rfl rfl h.1

/-- The properties of a valid rule are pairs of texts. -/
theorem exists_props_of_validRule {w : Whitelist} {r : Value} (hr : Storage.validRule w r = true) :
    ∃ props : List (Text × Text), Value.props r = .ok (.dict (props.map fun p => (.str p.1, .str p.2))) ∧
      ∀ p ∈ props, w.permits p.1 = true ∧ PropertyValue.isSafe p.2 = true := by
  obtain ⟨es, hes, hvalid⟩ := Storage.validRule_props hr
  rw [hes]
  clear hes
  induction es with
  | nil => exact ⟨[], rfl, fun p hp => by cases hp⟩
  | cons e es ih =>
    rw [List.all_cons, Bool.and_eq_true] at hvalid
    obtain ⟨name, value, rfl⟩ := Storage.validProperty_cases hvalid.1
    obtain ⟨props, hprops, hall⟩ := ih hvalid.2
    cases hprops
    refine ⟨(name, value) :: props, rfl, fun p hp => ?_⟩
    rcases List.mem_cons.1 hp with rfl | hp
    · exact Bool.and_eq_true _ _ ▸ hvalid.1
    · exact hall p hp

/-- **A valid rule, written out and read again, declares no names but its own**, whatever the whitelist it
is read under: so it is if no pattern of the whitelist that it was checked against has a star, or else if
all its names are made of the characters of keys. -/
theorem names_of_declarations {patterns : List Text} (hpatterns : ∀ p ∈ patterns, IsNamePattern p)
    {r : Value} (hr : Storage.validRule (.ofPatterns patterns) r = true) :
    ∃ props : List (Text × Text), Value.props r = .ok (.dict (props.map fun p => (.str p.1, .str p.2))) ∧
      ((∀ p ∈ patterns, Whitelist.isWildcard p = false) ∨ (∀ p ∈ props, p.1.all isKeyChar = true) →
        ∀ w, ∀ name ∈ (permittedProps (declarations props) w).keys, name ∈ props.map Prod.fst) := by
  obtain ⟨props, hprops, hvalid⟩ := exists_props_of_validRule hr
  refine ⟨props, hprops, fun hnames w name hname => mem_names_of_mem_keys ?_ hname⟩
  apply List.all_eq_true.2
  intro p hp
  have hname : p.1.all isKeyChar = true := by
    rcases hnames with hexact | hkeys
    · exact isKeyChar_of_permits hpatterns hexact (hvalid p hp).1
    · exact hkeys p hp
  rw [isDeclarable, hname, isValueChar_of_isSafe (hvalid p hp).2]
  rfl

/-- A rule checked against a pattern without a star. -/
theorem names_of_declarations_color :
    (∀ p ∈ ["color".toList], IsNamePattern p) ∧
    Storage.validRule (.ofPatterns ["color".toList])
      (.rule (.dict [(.str "color".toList, .str " dark red".toList)])) = true ∧
    (∀ p ∈ ["color".toList], Whitelist.isWildcard p = false) ∧
    ∃ props, Value.props (.rule (.dict [(.str "color".toList, .str " dark red".toList)])) =
        .ok (.dict (props.map fun p => (.str p.1, .str p.2))) ∧
      ∀ w, ∀ name ∈ (permittedProps (declarations props) w).keys, name ∈ props.map Prod.fst := by
  have hpatterns : ∀ p ∈ ["color".toList], IsNamePattern p := by
    intro p hp
    rw [List.mem_singleton.1 hp]
    exact ⟨"color".toList, by decide, .inl rfl⟩
  have hvalid : Storage.validRule (.ofPatterns ["color".toList])
      (.rule (.dict [(.str "color".toList, .str " dark red".toList)])) = true := by
    decide +kernel
  have hexact : ∀ p ∈ ["color".toList], Whitelist.isWildcard p = false := by
    decide
  obtain ⟨props, hprops, hnames⟩ := names_of_declarations hpatterns hvalid
  exact ⟨hpatterns, hvalid, hexact, props, hprops, hnames (.inl hexact)⟩

/-- **A pattern with a star lets a declaration through**: what comes after the permitted beginning of this
name ends the declaration and begins another one. -/
theorem smuggled_declaration :
    IsNamePattern "margin*".toList ∧
    Storage.validRule (.ofPatterns ["margin*".toList])
      (.rule (.dict [(.str "margin: 0; background".toList, .str "red".toList)])) = true ∧
    (permittedProps (declarations [("margin: 0; background".toList, "red".toList)])
      (.ofPatterns ["*".toList])).entries =
        [("margin".toList, "0".toList), ("background".toList, "red".toList)] ∧
    "background".toList ∉ ["margin: 0; background".toList] :=
  ⟨⟨"margin".toList, by decide, .inr rfl⟩, by decide +kernel, by decide +kernel, by decide⟩

end ProseMarkup.StyleSheet
