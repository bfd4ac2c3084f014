import P42Prizes.PrefixCodes

/-! # The text of a JSON value

A JSON value is written in one way only (`Json.stringify`), and no text of a value is the text of
another: where a text ends is seen from the text itself, except that a number ends before the first
character that no number has.

Texts are bytes.  The members of an object are listed in the order in which they are written. -/

namespace JsonText

open PrefixCodes

abbrev Bytes := List UInt8

/-- The bytes of a text that has ASCII characters only. -/
def ascii (text : String) : Bytes := text.toList.map (fun c => UInt8.ofNat c.toNat)

/-- A byte that numbers are written with: a digit, or one of `+-.eE`. -/
def isNumeric (b : UInt8) : Bool :=
  (48 ≤ b && b ≤ 57) || b = 43 || b = 45 || b = 46 || b = 69 || b = 101

/-- A number, as it is written. -/
structure Number where
  text : Bytes
  ne_nil : text ≠ []
  numeric : text.all isNumeric = true
deriving DecidableEq

mutual

inductive Json where
  | null
  | bool (b : Bool)
  | number (n : Number)
  | string (text : Bytes)
  | array (items : Items)
  | object (members : Members)

inductive Items where
  | nil
  | cons (item : Json) (rest : Items)

inductive Members where
  | nil
  | cons (key : Bytes) (value : Json) (rest : Members)

end

/-! ### Writing -/

def hexDigit (n : ℕ) : UInt8 := UInt8.ofNat (if n < 10 then 48 + n else 87 + n)

/-- A byte within a string. -/
def escape (b : UInt8) : Bytes :=
  if b = 34 then [92, 34]
  else if b = 92 then [92, 92]
  else if b = 8 then [92, 98]
  else if b = 9 then [92, 116]
  else if b = 10 then [92, 110]
  else if b = 12 then [92, 102]
  else if b = 13 then [92, 114]
  else if b < 32 then [92, 117, 48, 48, hexDigit (b.toNat / 16), hexDigit (b.toNat % 16)]
  else [b]

def quote (text : Bytes) : Bytes := 34 :: (text.flatMap escape ++ [34])

mutual

def Json.stringify : Json → Bytes
  | .null => ascii "null"
  | .bool true => ascii "true"
  | .bool false => ascii "false"
  | .number n => n.text
  | .string text => quote text
  | .array items => 91 :: (items.stringify ++ [93])
  | .object members => 123 :: (members.stringify ++ [125])

def Items.stringify : Items → Bytes
  | .nil => []
  | .cons item .nil => item.stringify
  | .cons item (.cons next rest) => item.stringify ++ 44 :: (Items.cons next rest).stringify

def Members.stringify : Members → Bytes
  | .nil => []
  | .cons key value .nil => quote key ++ 58 :: value.stringify
  | .cons key value (.cons next other rest) =>
      quote key ++ 58 :: (value.stringify ++ 44 :: (Members.cons next other rest).stringify)

end

/-! ### Reading members -/

def Members.find (key : Bytes) : Members → Option Json
  | .nil => none
  | .cons other value rest => if other = key then some value else rest.find key

def Json.member (key : Bytes) : Json → Option Json
  | .object members => members.find key
  | _ => none

def Members.ofList : List (Bytes × Json) → Members
  | [] => .nil
  | (key, value) :: rest => .cons key value (.ofList rest)

/-! ### Strings -/

/-- The bytes that are written with a backslash. -/
def escaped : List UInt8 := 34 :: 92 :: (List.range 32).map UInt8.ofNat

theorem escape_of_notMem {b : UInt8} (h : b ∉ escaped) : escape b = [b] := by
  have hne : ∀ c ∈ escaped, b ≠ c := fun c hc heq => h (heq ▸ hc)
  have hlt : ¬ b < 32 := by
    intro hlt
    have hb : b.toNat < 32 := UInt8.lt_iff_toNat_lt.mp hlt
    refine h (List.mem_cons_of_mem _ (List.mem_cons_of_mem _ (List.mem_map.mpr ⟨b.toNat, ?_, ?_⟩)))
    · exact List.mem_range.mpr hb
    · exact UInt8.ofNat_toNat
  unfold escape
  rw [if_neg (hne 34 (by decide)), if_neg (hne 92 (by decide)), if_neg (hne 8 (by decide)),
    if_neg (hne 9 (by decide)), if_neg (hne 10 (by decide)), if_neg (hne 12 (by decide)),
    if_neg (hne 13 (by decide)), if_neg hlt]

theorem escape_of_mem : ∀ b ∈ escaped, (escape b).head? = some 92 := by decide +kernel

theorem escaped_unique : ∀ a ∈ escaped, ∀ b ∈ escaped, escape a <+: escape b → a = b := by
  decide +kernel

theorem escape_ne_nil (b : UInt8) : escape b ≠ [] := by
  by_cases hb : b ∈ escaped
  · intro h
    have hhead := escape_of_mem b hb
    rw [h] at hhead
    cases hhead
  · rw [escape_of_notMem hb]
    exact List.cons_ne_nil _ _

/-- A byte is seen from what it is written as, whatever follows. -/
theorem escape_inj {a b : UInt8} {r s : Bytes} (h : escape a ++ r = escape b ++ s) : a = b := by
  have hhead : (escape a).head? = (escape b).head? := by
    have := congrArg List.head? h
    rwa [List.head?_append_of_ne_nil _ (escape_ne_nil a),
      List.head?_append_of_ne_nil _ (escape_ne_nil b)] at this
  by_cases ha : a ∈ escaped <;> by_cases hb : b ∈ escaped
  · rcases List.prefix_or_prefix_of_prefix ⟨r, h⟩ (List.prefix_append _ s) with hp | hp
    · exact escaped_unique a ha b hb hp
    · exact (escaped_unique b hb a ha hp).symm
  · rw [escape_of_mem a ha, escape_of_notMem hb] at hhead
    rw [← Option.some.inj hhead] at hb
    exact absurd (by decide) hb
  · rw [escape_of_mem b hb, escape_of_notMem ha] at hhead
    rw [Option.some.inj hhead] at ha
    exact absurd (by decide) ha
  · rw [escape_of_notMem ha, escape_of_notMem hb] at hhead
    exact Option.some.inj hhead

theorem escape_ne_quote {b : UInt8} {r s : Bytes} : escape b ++ r ≠ 34 :: s := by
  intro h
  have hhead : (escape b).head? = some 34 := by
    have := congrArg List.head? h
    rwa [List.head?_append_of_ne_nil _ (escape_ne_nil b)] at this
  by_cases hb : b ∈ escaped
  · rw [escape_of_mem b hb] at hhead
    cases hhead
  · rw [escape_of_notMem hb] at hhead
    rw [Option.some.inj hhead] at hb
    exact hb (by decide)

theorem quote_inj {x y r s : Bytes} (h : quote x ++ r = quote y ++ s) : x = y ∧ r = s := by
  unfold quote at h
  rw [List.cons_append, List.cons_append, List.append_assoc, List.append_assoc, List.cons.injEq] at h
  replace h := h.2
  induction x generalizing y with
  | nil =>
      cases y with
      | nil => exact ⟨rfl, (List.cons.inj h).2⟩
      | cons b y =>
          rw [List.flatMap_cons, List.append_assoc] at h
          exact absurd h.symm escape_ne_quote
  | cons a x ih =>
      cases y with
      | nil =>
          rw [List.flatMap_cons, List.append_assoc] at h
          exact absurd h escape_ne_quote
      | cons b y =>
          rw [List.flatMap_cons, List.flatMap_cons, List.append_assoc, List.append_assoc] at h
          obtain rfl := escape_inj h
          obtain ⟨rfl, hrest⟩ := ih (List.append_cancel_left h)
          exact ⟨rfl, hrest⟩

/-! ### Values -/

/-- What the first byte of a value says of it: numbers are what nothing else begins with. -/
def kindOf (b : UInt8) : ℕ :=
  if b = 110 then 0 else if b = 116 then 1 else if b = 102 then 2 else if b = 34 then 3
  else if b = 91 then 4 else if b = 123 then 5 else if isNumeric b then 6 else 7

def Json.kind : Json → ℕ
  | .null => 0
  | .bool true => 1
  | .bool false => 2
  | .string _ => 3
  | .array _ => 4
  | .object _ => 5
  | .number _ => 6

theorem kindOf_of_isNumeric {b : UInt8} (h : isNumeric b = true) : kindOf b = 6 := by
  have hne : ∀ c, isNumeric c = false → b ≠ c := by
    rintro c hc rfl
    rw [h] at hc
    cases hc
  unfold kindOf
  rw [if_neg (hne 110 (by decide)), if_neg (hne 116 (by decide)), if_neg (hne 102 (by decide)),
    if_neg (hne 34 (by decide)), if_neg (hne 91 (by decide)), if_neg (hne 123 (by decide)), if_pos h]

theorem Number.exists_cons (n : Number) : ∃ b rest, n.text = b :: rest ∧ isNumeric b = true := by
  cases hn : n.text with
  | nil => exact absurd hn n.ne_nil
  | cons b rest =>
      have hall := n.numeric
      rw [hn, List.all_cons, Bool.and_eq_true] at hall
      exact ⟨b, rest, rfl, hall.1⟩

theorem Json.stringify_head (v : Json) : ∃ b rest, v.stringify = b :: rest ∧ kindOf b = v.kind := by
  cases v with
  | null => exact ⟨110, _, rfl, rfl⟩
  | bool b =>
      cases b
      · exact ⟨102, _, rfl, rfl⟩
      · exact ⟨116, _, rfl, rfl⟩
  | number n =>
      obtain ⟨b, rest, hn, hb⟩ := n.exists_cons
      exact ⟨b, rest, hn, kindOf_of_isNumeric hb⟩
  | string text => exact ⟨34, _, rfl, rfl⟩
  | array items => exact ⟨91, _, rfl, rfl⟩
  | object members => exact ⟨123, _, rfl, rfl⟩

theorem Json.kind_lt (v : Json) : v.kind < 7 := by
  cases v with
  | bool b => cases b <;> decide
  | _ => simp only [Json.kind]; omega

/-- What is said of a value by its kind. -/
theorem Json.of_kind (v : Json) :
    match v.kind with
    | 0 => v = .null
    | 1 => v = .bool true
    | 2 => v = .bool false
    | 3 => ∃ text, v = .string text
    | 4 => ∃ items, v = .array items
    | 5 => ∃ members, v = .object members
    | _ => ∃ n, v = .number n := by
  cases v with
  | null => rfl
  | bool b => cases b <;> rfl
  | _ => exact ⟨_, rfl⟩

theorem Json.kind_eq {v w : Json} {r s : Bytes} (h : v.stringify ++ r = w.stringify ++ s) :
    v.kind = w.kind := by
  obtain ⟨b, rest, hb, hkind⟩ := v.stringify_head
  obtain ⟨c, rest', hc, hkind'⟩ := w.stringify_head
  rw [hb, hc, List.cons_append, List.cons_append] at h
  rw [← hkind, ← hkind', (List.cons.inj h).1]

/-- No value begins with what ends a list or separates its values. -/
theorem Json.stringify_ne {v : Json} {b : UInt8} {r s : Bytes} (hb : kindOf b = 7) :
    v.stringify ++ r ≠ b :: s := by
  intro h
  obtain ⟨c, rest, hc, hkind⟩ := v.stringify_head
  rw [hc, List.cons_append] at h
  have hlt := v.kind_lt
  rw [← hkind, (List.cons.inj h).1, hb] at hlt
  exact absurd hlt (by decide)

/-- A text that does not go on with a number. -/
def Stops (t : Bytes) : Prop := ∀ b ∈ t.head?, isNumeric b = false

theorem stops_cons {b : UInt8} {t : Bytes} (hb : isNumeric b = false) : Stops (b :: t) := by
  intro c hc
  obtain rfl := Option.some.inj hc
  exact hb

theorem Number.takeWhile_text (n : Number) {t : Bytes} (ht : Stops t) :
    (n.text ++ t).takeWhile isNumeric = n.text := by
  rw [List.takeWhile_append_of_pos (List.all_eq_true.mp n.numeric)]
  cases t with
  | nil => rw [List.takeWhile_nil, List.append_nil]
  | cons b t => rw [List.takeWhile_cons_of_neg (by simp [ht b rfl]), List.append_nil]

theorem Number.text_inj {n m : Number} {t u : Bytes} (ht : Stops t) (hu : Stops u)
    (h : n.text ++ t = m.text ++ u) : n = m ∧ t = u := by
  have htext : n.text = m.text := by
    have := congrArg (List.takeWhile isNumeric) h
    rwa [n.takeWhile_text ht, m.takeWhile_text hu] at this
  refine ⟨?_, List.append_cancel_left (htext ▸ h)⟩
  cases n
  cases m
  cases htext
  rfl

mutual

theorem Json.stringify_inj (v w : Json) {t u : Bytes} (ht : Stops t) (hu : Stops u)
    (h : v.stringify ++ t = w.stringify ++ u) : v = w ∧ t = u := by
  have hw := w.of_kind
  rw [← Json.kind_eq h] at hw
  match v with
  | .null =>
      obtain rfl : w = .null := hw
      exact ⟨rfl, List.append_cancel_left h⟩
  | .bool true =>
      obtain rfl : w = .bool true := hw
      exact ⟨rfl, List.append_cancel_left h⟩
  | .bool false =>
      obtain rfl : w = .bool false := hw
      exact ⟨rfl, List.append_cancel_left h⟩
  | .number n =>
      obtain ⟨m, rfl⟩ : ∃ m, w = .number m := hw
      obtain ⟨rfl, hrest⟩ := Number.text_inj ht hu h
      exact ⟨rfl, hrest⟩
  | .string x =>
      obtain ⟨y, rfl⟩ : ∃ y, w = .string y := hw
      obtain ⟨rfl, hrest⟩ := quote_inj h
      exact ⟨rfl, hrest⟩
  | .array xs =>
      obtain ⟨ys, rfl⟩ : ∃ ys, w = .array ys := hw
      simp only [Json.stringify, List.cons_append, List.append_assoc, List.cons.injEq, true_and,
        List.nil_append] at h
      obtain ⟨rfl, hrest⟩ := Items.stringify_inj xs ys h
      exact ⟨rfl, hrest⟩
  | .object xs =>
      obtain ⟨ys, rfl⟩ : ∃ ys, w = .object ys := hw
      simp only [Json.stringify, List.cons_append, List.append_assoc, List.cons.injEq, true_and,
        List.nil_append] at h
      obtain ⟨rfl, hrest⟩ := Members.stringify_inj xs ys h
      exact ⟨rfl, hrest⟩

theorem Items.stringify_inj (xs ys : Items) {t u : Bytes}
    (h : xs.stringify ++ 93 :: t = ys.stringify ++ 93 :: u) : xs = ys ∧ t = u := by
  match xs, ys with
  | .nil, .nil => exact ⟨rfl, (List.cons.inj h).2⟩
  | .nil, .cons y .nil => exact absurd h.symm (Json.stringify_ne rfl)
  | .nil, .cons y (.cons next rest) =>
      rw [Items.stringify, Items.stringify, List.append_assoc] at h
      exact absurd h.symm (Json.stringify_ne rfl)
  | .cons x .nil, .nil => exact absurd h (Json.stringify_ne rfl)
  | .cons x (.cons next rest), .nil =>
      rw [Items.stringify, Items.stringify, List.append_assoc] at h
      exact absurd h (Json.stringify_ne rfl)
  | .cons x .nil, .cons y .nil =>
      rw [Items.stringify, Items.stringify] at h
      obtain ⟨rfl, hrest⟩ := Json.stringify_inj x y (stops_cons rfl) (stops_cons rfl) h
      exact ⟨rfl, (List.cons.inj hrest).2⟩
  | .cons x .nil, .cons y (.cons next rest) =>
      rw [Items.stringify, Items.stringify, List.append_assoc] at h
      have hrest := (Json.stringify_inj x y (stops_cons rfl) (stops_cons rfl) h).2
      exact absurd (List.cons.inj hrest).1 (by decide)
  | .cons x (.cons next rest), .cons y .nil =>
      rw [Items.stringify, Items.stringify, List.append_assoc] at h
      have hrest := (Json.stringify_inj x y (stops_cons rfl) (stops_cons rfl) h).2
      exact absurd (List.cons.inj hrest).1 (by decide)
  | .cons x (.cons next rest), .cons y (.cons next' rest') =>
      rw [Items.stringify, Items.stringify, List.append_assoc, List.append_assoc] at h
      obtain ⟨rfl, hrest⟩ := Json.stringify_inj x y (stops_cons rfl) (stops_cons rfl) h
      obtain ⟨hitems, htail⟩ := Items.stringify_inj (.cons next rest) (.cons next' rest')
        (List.cons.inj hrest).2
      exact ⟨by rw [hitems], htail⟩

theorem Members.stringify_inj (xs ys : Members) {t u : Bytes}
    (h : xs.stringify ++ 125 :: t = ys.stringify ++ 125 :: u) : xs = ys ∧ t = u := by
  match xs, ys with
  | .nil, .nil => exact ⟨rfl, (List.cons.inj h).2⟩
  | .nil, .cons key y .nil | .nil, .cons key y (.cons other next rest) =>
      rw [Members.stringify, Members.stringify, quote] at h
      exact absurd (List.cons.inj h).1 (by decide)
  | .cons key x .nil, .nil | .cons key x (.cons other next rest), .nil =>
      rw [Members.stringify, Members.stringify, quote] at h
      exact absurd (List.cons.inj h).1 (by decide)
  | .cons key x .nil, .cons key' y .nil =>
      rw [Members.stringify, Members.stringify, List.append_assoc, List.append_assoc] at h
      obtain ⟨rfl, hvalue⟩ := quote_inj h
      obtain ⟨rfl, hrest⟩ := Json.stringify_inj x y (stops_cons rfl) (stops_cons rfl)
        (List.cons.inj hvalue).2
      exact ⟨rfl, (List.cons.inj hrest).2⟩
  | .cons key x .nil, .cons key' y (.cons other next rest) =>
      rw [Members.stringify, Members.stringify, List.append_assoc, List.append_assoc] at h
      obtain ⟨rfl, hvalue⟩ := quote_inj h
      rw [List.cons_append, List.cons_append, List.append_assoc] at hvalue
      have hrest := (Json.stringify_inj x y (stops_cons rfl) (stops_cons rfl) (List.cons.inj hvalue).2).2
      exact absurd (List.cons.inj hrest).1 (by decide)
  | .cons key x (.cons other next rest), .cons key' y .nil =>
      rw [Members.stringify, Members.stringify, List.append_assoc, List.append_assoc] at h
      obtain ⟨rfl, hvalue⟩ := quote_inj h
      rw [List.cons_append, List.cons_append, List.append_assoc] at hvalue
      have hrest := (Json.stringify_inj x y (stops_cons rfl) (stops_cons rfl) (List.cons.inj hvalue).2).2
      exact absurd (List.cons.inj hrest).1 (by decide)
  | .cons key x (.cons other next rest), .cons key' y (.cons other' next' rest') =>
      rw [Members.stringify, Members.stringify, List.append_assoc, List.append_assoc] at h
      obtain ⟨rfl, hvalue⟩ := quote_inj h
      rw [List.cons_append, List.cons_append, List.append_assoc, List.append_assoc] at hvalue
      obtain ⟨rfl, hrest⟩ := Json.stringify_inj x y (stops_cons rfl) (stops_cons rfl)
        (List.cons.inj hvalue).2
      obtain ⟨hmembers, htail⟩ := Members.stringify_inj (.cons other next rest)
        (.cons other' next' rest') (List.cons.inj hrest).2
      exact ⟨by rw [hmembers], htail⟩

end

/-- No text of a value is the text of another. -/
theorem Json.stringify_injective : Function.Injective Json.stringify := by
  intro v w h
  have hnil : Stops [] := fun b hb => by cases hb
  exact (Json.stringify_inj v w hnil hnil (by rw [h])).1

end JsonText
