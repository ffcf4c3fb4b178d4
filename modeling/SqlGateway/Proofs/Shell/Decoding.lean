import Mathlib.Data.List.Basic
import Mathlib.Logic.Function.Basic
import SqlGateway.Shell

/-!
# Reading a shell text back

A shell text escapes nothing.  Still **a clean value is read off the front of every text that goes on with a comma or a new line** (`decodes`), so different clean
documents have different texts (`documentText_listText_injective`).
-/

namespace SqlGateway

open List

variable {c : Char} {r s : List Char} {α : Type} {v w : Value} {indent current : Int} (n : Int)

/-! ### Numbers -/

theorem toList_showInt : (showInt n).toList =
    if n < 0 then '-' :: Nat.toDigits 10 n.natAbs else Nat.toDigits 10 n.natAbs := by
  rw [showInt]
  split <;> simp

theorem mem_showInt {n : Int} (h : c ∈ (showInt n).toList) : c = '-' ∨ c.isDigit := by
  have hdigit : c ∈ Nat.toDigits 10 n.natAbs → c.isDigit := Nat.isDigit_of_mem_toDigits (by decide) (by decide)
  rw [toList_showInt] at h
  split at h
  · exact (mem_cons.mp h).imp id hdigit
  · exact .inr (hdigit h)

theorem showInt_ne_nil : (showInt n).toList ≠ [] := by
  rw [toList_showInt]
  split
  · exact cons_ne_nil _ _
  · exact Nat.toDigits_ne_nil

theorem showInt_injective : Function.Injective showInt := by
  intro m n h
  have hminus : ∀ k r, Nat.toDigits 10 k ≠ '-' :: r := by
    intro k r hk
    have hdigit : '-'.isDigit := Nat.isDigit_of_mem_toDigits (by decide) (by decide)
      (hk ▸ mem_cons_self)
    exact absurd hdigit (by decide)
  have hdigits : Nat.toDigits 10 m.natAbs = Nat.toDigits 10 n.natAbs → m.natAbs = n.natAbs := by
    intro he
    simpa only [Nat.ofDigitChars_ten_toDigits] using congrArg (Nat.ofDigitChars 10 · 0) he
  have hchars := congrArg String.toList h
  rw [toList_showInt, toList_showInt] at hchars
  split at hchars <;> split at hchars
  · have := hdigits (cons.inj hchars).2
    omega
  · exact absurd hchars.symm (hminus _ _)
  · exact absurd hchars (hminus _ _)
  · have := hdigits hchars
    omega

namespace Shell

/-! ### Clean values -/

/-- A name without a double quote; one that begins with `$` goes on with letters. -/
def CleanName (name : String) : Prop :=
  '"' ∉ name.toList ∧ (['$'].isPrefixOf name.toList → ∀ c ∈ name.toList.tail, c.isAlpha)

/-- Texts, whole numbers, truth values and nothing, in lists and documents, without a double quote
in any text or name. -/
inductive Clean : Value → Prop
  | null : Clean .null
  | bool (b : Bool) : Clean (.bool b)
  | int (n : Int) : Clean (.int n)
  | text {s : String} : '"' ∉ s.toList → Clean (.text s)
  | list {vs : List Value} : (∀ v ∈ vs, Clean v) → Clean (.list vs)
  | doc {ms : Document} : (∀ m ∈ ms, CleanName m.1) → (∀ m ∈ ms, Clean m.2) → Clean (.doc ms)

/-! ### Where a part ends -/

theorem append_inj_of_all {p : Char → Bool} {a b r s : List Char} (ha : ∀ c ∈ a, p c) (hb : ∀ c ∈ b, p c)
    (hr : ∀ c ∈ r.head?, p c = false) (hs : ∀ c ∈ s.head?, p c = false) (h : a ++ r = b ++ s) :
    a = b ∧ r = s := by
  have htake : ∀ {l r : List Char}, (∀ c ∈ l, p c) → (∀ c ∈ r.head?, p c = false) →
      (l ++ r).takeWhile p = l := by
    intro l r hl hr
    rw [takeWhile_append_of_pos hl]
    cases r with
    | nil => exact append_nil l
    | cons c r => rw [takeWhile_cons_of_neg (by simp [hr c rfl]), append_nil]
  obtain rfl : a = b := by rw [← htake ha hr, h, htake hb hs]
  exact ⟨rfl, append_cancel_left h⟩

theorem append_cons_inj {m : Char} {a b : List Char} (ha : m ∉ a) (hb : m ∉ b)
    (h : a ++ m :: r = b ++ m :: s) : a = b ∧ r = s := by
  have hfree : ∀ {l : List Char}, m ∉ l → ∀ c ∈ l, (c != m) := by
    intro l hl c hc
    rw [bne_iff_ne]
    rintro rfl
    exact hl hc
  have hstop : ∀ {l : List Char}, ∀ c ∈ (m :: l).head?, (c != m) = false := by simp
  obtain ⟨rfl, hrest⟩ := append_inj_of_all (hfree ha) (hfree hb) hstop hstop h
  exact ⟨rfl, (cons.inj hrest).2⟩

theorem toList_inQuotes (s : String) : (inQuotes s).toList = '"' :: s ++ ['"'] := by
  simp [inQuotes]

theorem inQuotes_inj {a b : String} (ha : '"' ∉ a.toList) (hb : '"' ∉ b.toList)
    (h : (inQuotes a).toList ++ r = (inQuotes b).toList ++ s) : a = b ∧ r = s := by
  simp only [toList_inQuotes, cons_append, append_assoc, nil_append] at h
  obtain ⟨hab, hrs⟩ := append_cons_inj ha hb (cons.inj h).2
  exact ⟨String.toList_inj.mp hab, hrs⟩

/-! ### Names -/

theorem CleanName.colon_not_mem {name : String} (h : CleanName name)
    (hsign : ['$'].isPrefixOf name.toList) : ':' ∉ name.toList := by
  obtain ⟨rest, hrest⟩ := isPrefixOf_iff_prefix.mp hsign
  have hletters := h.2 hsign
  rw [← hrest] at hletters ⊢
  intro hmem
  have : ':' ∈ rest := by simpa using hmem
  exact absurd (hletters ':' this) (by decide)

theorem label_inj {a b : String} (ha : CleanName a) (hb : CleanName b)
    (h : (label a).toList ++ r = (label b).toList ++ s) : a = b ∧ r = s := by
  -- a bare name begins with `$`, any other with a double quote
  have hhead : ∀ {n : String} {q : List Char}, ['$'].isPrefixOf n →
      (n ++ q).head? = some '$' := by
    intro n q hn
    obtain ⟨rest, hrest⟩ := isPrefixOf_iff_prefix.mp hn
    rw [← hrest]
    rfl
  have hspaced : ∀ {u : List Char}, (": ") ++ u = ':' :: ' ' :: u := fun {u} => rfl
  rw [label, label] at h
  split at h <;> split at h <;>
    rw [String.toList_append, String.toList_append, append_assoc, append_assoc, hspaced, hspaced] at h
  case isTrue.isTrue hsa hsb =>
    obtain ⟨hab, hrs⟩ := append_cons_inj (ha.colon_not_mem hsa) (hb.colon_not_mem hsb) h
    exact ⟨String.toList_inj.mp hab, (cons.inj hrs).2⟩
  case isTrue.isFalse hsa _ =>
    have heads := congrArg head? h
    rw [hhead hsa, toList_inQuotes] at heads
    exact absurd (Option.some.inj heads) (by decide)
  case isFalse.isTrue _ hsb =>
    have heads := congrArg head? h
    rw [hhead hsb, toList_inQuotes] at heads
    exact absurd (Option.some.inj heads) (by decide)
  case isFalse.isFalse =>
    obtain ⟨hab, hrs⟩ := inQuotes_inj ha.1 hb.1 h
    exact ⟨hab, (cons.inj (cons.inj hrs).2).2⟩

/-! ### Lines -/

/-- What can stand behind an item: nothing, a comma or a new line. -/
def Ends (r : List Char) : Prop :=
  ∀ c ∈ r.head?, c = ',' ∨ c = '\n'

def lines {α : Type} (f : α → String) : List α → String
  | [] => ""
  | x :: rest => f x ++ comma rest ++ lines f rest

@[simp] theorem toList_comma_nil : (comma ([] : List α)).toList = ['\n'] := by
  simp [comma]

@[simp] theorem toList_comma_cons (x : α) (xs : List α) : (comma (x :: xs)).toList = [',', '\n'] := by
  simp [comma]

theorem ends_comma (rest : List α) (r : List Char) : Ends ((comma rest).toList ++ r) := by
  cases rest <;> simp [Ends]

/-- **Lines of items that can be read off the front of a text can be read off themselves.** -/
theorem lines_inj {f : α → String} {xs ys : List α} {q t : List Char}
    (hitem : ∀ x ∈ xs, ∀ y ∈ ys, ∀ r s, Ends r → Ends s → (f x).toList ++ r = (f y).toList ++ s →
      x = y ∧ r = s) (hxs : xs ≠ []) (hys : ys ≠ [])
    (h : (lines f xs).toList ++ q = (lines f ys).toList ++ t) : xs = ys ∧ q = t := by
  induction xs generalizing ys with
  | nil => exact absurd rfl hxs
  | cons x xs ih =>
    obtain ⟨y, ys, rfl⟩ := exists_cons_of_ne_nil hys
    simp only [lines, String.toList_append, append_assoc] at h
    obtain ⟨rfl, hrest⟩ := hitem x mem_cons_self y mem_cons_self _ _ (ends_comma _ _)
      (ends_comma _ _) h
    cases xs with
    | nil =>
      cases ys with
      | nil => exact ⟨rfl, by simpa [lines] using hrest⟩
      | cons _ _ => simp at hrest
    | cons x' xs =>
      cases ys with
      | nil => simp at hrest
      | cons y' ys =>
        have htail : (lines f (x' :: xs)).toList ++ q = (lines f (y' :: ys)).toList ++ t := by
          simpa using hrest
        obtain ⟨hxs, hqt⟩ := ih (fun a ha b hb => hitem a (mem_cons_of_mem _ ha) b
          (mem_cons_of_mem _ hb)) (cons_ne_nil _ _) (cons_ne_nil _ _) htail
        exact ⟨congrArg (x :: ·) hxs, hqt⟩

def block {α : Type} (opening closing : Char) (margin : String) (f : α → String) : List α → List Char
  | [] => [opening, closing]
  | x :: xs => opening :: '\n' :: ((lines f (x :: xs)).toList ++ (margin.toList ++ [closing]))

theorem block_inj {opening closing : Char} {margin : String} {f : α → String}
    (hclosing : closing ≠ '\n') {xs ys : List α} {q t : List Char}
    (hitem : ∀ x ∈ xs, ∀ y ∈ ys, ∀ r s, Ends r → Ends s → (f x).toList ++ r = (f y).toList ++ s → x = y ∧ r = s)
    (h : block opening closing margin f xs ++ q = block opening closing margin f ys ++ t) :
    xs = ys ∧ q = t := by
  cases xs with
  | nil =>
    cases ys with
    | nil => exact ⟨rfl, by simpa [block] using h⟩
    | cons _ _ => simp [block, hclosing] at h
  | cons x xs =>
    cases ys with
    | nil => simp [block, hclosing.symm] at h
    | cons y ys =>
      simp only [block, cons_append, append_assoc, cons.injEq, true_and] at h
      obtain ⟨hxs, hrest⟩ := lines_inj hitem (cons_ne_nil _ _) (cons_ne_nil _ _) h
      exact ⟨hxs, by simpa using hrest⟩

/-! ### Values -/

/-- The forms in which values are written. -/
inductive Form where
  | word
  | quoted
  | list
  | document

/-- The form that begins with a character. -/
def Form.ofChar : Char → Form
  | '"' => quoted
  | '[' => list
  | '\x7b' => document
  | _ => word

def form : Value → Form
  | .text _ => .quoted
  | .list _ => .list
  | .doc _ => .document
  | _ => .word

theorem written_int (indent current n : Int) : written indent current (.int n) = showInt n := by
  rw [written]
  · rfl
  all_goals simp

theorem form_ofChar_of_digit (h : c = '-' ∨ c.isDigit) : Form.ofChar c = .word := by
  rw [Form.ofChar.eq_def]
  split
  case h_4 => rfl
  all_goals exact absurd h (by decide)

theorem exists_head (h : Clean v) (indent current : Int) :
    ∃ c s, (written indent current v).toList = c :: s ∧ Form.ofChar c = form v := by
  cases h with
  | null => exact ⟨'n', _, by rw [written]; rfl, rfl⟩
  | bool b => cases b <;> exact ⟨_, _, by rw [written]; rfl, rfl⟩
  | int n =>
    obtain ⟨c, s, hcs⟩ := exists_cons_of_ne_nil (showInt_ne_nil n)
    refine ⟨c, s, by rw [written_int, hcs], form_ofChar_of_digit (mem_showInt (n := n) ?_)⟩
    rw [hcs]
    exact mem_cons_self
  | text _ => exact ⟨'"', _, by rw [written, toList_inQuotes]; rfl, rfl⟩
  | @list vs _ => cases vs <;> exact ⟨'[', _, by rw [written]; simp; rfl, rfl⟩
  | @doc ms _ _ => cases ms <;> exact ⟨'\x7b', _, by rw [written]; simp; rfl, rfl⟩

theorem form_eq (hv : Clean v) (hw : Clean w)
    (h : (written indent current v).toList ++ r = (written indent current w).toList ++ s) :
    form v = form w := by
  obtain ⟨c, a, hc, hform⟩ := exists_head hv indent current
  obtain ⟨d, b, hd, hform'⟩ := exists_head hw indent current
  rw [hc, hd] at h
  rw [← hform, ← hform', (cons.inj h).1]

theorem mem_word (h : Clean v) (hv : form v = .word) (hc : c ∈ (written indent current v).toList) :
    (c != ',' && c != '\n') := by
  cases h with
  | null => rw [written] at hc; revert c; decide
  | bool b => rw [written] at hc; revert c; cases b <;> decide
  | int n =>
    rw [Bool.and_eq_true, bne_iff_ne, bne_iff_ne]
    constructor <;>
    · rintro rfl
      exact absurd (mem_showInt hc) (by decide)
  | text _ => exact absurd hv (by simp [form])
  | list _ => exact absurd hv (by simp [form])
  | doc _ _ => exact absurd hv (by simp [form])

theorem showInt_ne_of_mem {s : String} (hc : c ∈ s.toList) (hdigit : c.isDigit = false)
    (hminus : c ≠ '-') (n : Int) : showInt n ≠ s := by
  rintro rfl
  simpa [hdigit, hminus] using mem_showInt hc

theorem word_inj (hv : Clean v) (hw : Clean w) (hform : form v = .word) (hform' : form w = .word)
    (h : written indent current v = written indent current w) : v = w := by
  have hint : ∀ n : Int, showInt n ≠ "null" ∧ ∀ b : Bool, showInt n ≠ if b then "true" else "false" :=
    fun n => ⟨showInt_ne_of_mem (c := 'n') (by decide) (by decide) (by decide) n, fun b =>
      showInt_ne_of_mem (c := 'e') (by cases b <;> decide) (by decide) (by decide) n⟩
  cases hv <;> cases hw <;> simp only [form, reduceCtorEq] at hform hform' <;>
    simp only [written] at h
  case null.null => rfl
  case null.bool b => cases b <;> simp at h
  case null.int n => exact absurd h.symm (hint n).1
  case bool.null b => cases b <;> simp at h
  case bool.bool b c => cases b <;> cases c <;> simp at h ⊢
  case bool.int b n => exact absurd h.symm ((hint n).2 b)
  case int.null n => exact absurd h (hint n).1
  case int.bool n b => exact absurd h ((hint n).2 b)
  case int.int m n => rw [showInt_injective h]

/-- A value can be read off the front of a text. -/
def Decodes (indent : Int) (v : Value) : Prop :=
  ∀ {current : Int} {w : Value} {r s : List Char}, Clean w → Ends r → Ends s →
    (written indent current v).toList ++ r = (written indent current w).toList ++ s → v = w ∧ r = s

theorem decodes_word (hv : Clean v) (hword : form v = .word) : Decodes indent v := by
  intro current w r s hw hr hs h
  have hword' : form w = .word := (form_eq hv hw h).symm.trans hword
  have hstop : ∀ {l : List Char}, Ends l → ∀ c ∈ l.head?, (c != ',' && c != '\n') = false := by
    intro l hl c hc
    obtain rfl | rfl := hl c hc <;> rfl
  obtain ⟨hchars, hrs⟩ := append_inj_of_all (fun _ hc => mem_word hv hword hc)
    (fun _ hc => mem_word hw hword' hc) (hstop hr) (hstop hs) h
  exact ⟨word_inj hv hw hword hword' (String.toList_inj.mp hchars), hrs⟩

/-! ### Lists and documents -/

theorem writtenItems_eq_lines (indent current : Int) (vs : List Value) : writtenItems indent current vs =
      lines (fun v => spaces current ++ written indent (current + indent) v) vs := by
  induction vs with
  | nil => rw [writtenItems, lines]
  | cons v vs ih => rw [writtenItems, lines, ih]

theorem writtenMembers_eq_lines (indent current : Int) (ms : Document) : writtenMembers indent current ms =
      lines (fun m => spaces current ++ label m.1 ++ written indent (current + indent) m.2) ms := by
  induction ms with
  | nil => rw [writtenMembers, lines]
  | cons m ms ih => rw [writtenMembers, lines, ih]

theorem toList_written_list (indent current : Int) (vs : List Value) :
    (written indent current (.list vs)).toList = block '[' ']' (spaces (current - indent))
      (fun v => spaces current ++ written indent (current + indent) v) vs := by
  cases vs with
  | nil => simp [written, block]
  | cons v vs => simp [written, block, writtenItems_eq_lines]

theorem toList_written_doc (indent current : Int) (ms : Document) :
    (written indent current (.doc ms)).toList = block '\x7b' '\x7d' (spaces (current - indent))
      (fun m => spaces current ++ label m.1 ++ written indent (current + indent) m.2) ms := by
  cases ms with
  | nil => simp [written, block]
  | cons m ms => simp [written, block, writtenMembers_eq_lines]

theorem decodes_list {vs : List Value} (hvs : ∀ v ∈ vs, Clean v) (ih : ∀ v ∈ vs, Decodes indent v) :
    Decodes indent (.list vs) := by
  intro current w r s hw _ _ h
  have hform := form_eq (.list hvs) hw h
  cases hw with
  | @list ws hws =>
    rw [toList_written_list, toList_written_list] at h
    have hitem : ∀ v ∈ vs, ∀ w ∈ ws, ∀ r s, Ends r → Ends s →
        (spaces current ++ written indent (current + indent) v).toList ++ r =
          (spaces current ++ written indent (current + indent) w).toList ++ s → v = w ∧ r = s := by
      intro v hv w hw r s hr hs h
      simp only [String.toList_append, append_assoc] at h
      exact ih v hv (hws w hw) hr hs (append_cancel_left h)
    obtain ⟨rfl, hrs⟩ := block_inj (by decide) hitem h
    exact ⟨rfl, hrs⟩
  | _ => exact absurd hform (by simp [form])

theorem decodes_doc {ms : Document} (hnames : ∀ m ∈ ms, CleanName m.1)
    (hvalues : ∀ m ∈ ms, Clean m.2) (ih : ∀ m ∈ ms, Decodes indent m.2) : Decodes indent (.doc ms) := by
  intro current w r s hw _ _ h
  have hform := form_eq (.doc hnames hvalues) hw h
  cases hw with
  | @doc ns hnames' hvalues' =>
    rw [toList_written_doc, toList_written_doc] at h
    have hitem : ∀ m ∈ ms, ∀ n ∈ ns, ∀ r s, Ends r → Ends s →
        (spaces current ++ label m.1 ++ written indent (current + indent) m.2).toList ++ r =
          (spaces current ++ label n.1 ++ written indent (current + indent) n.2).toList ++ s →
        m = n ∧ r = s := by
      intro m hm n hn r s hr hs h
      simp only [String.toList_append, append_assoc] at h
      obtain ⟨hname, hrest⟩ := label_inj (hnames m hm) (hnames' n hn) (append_cancel_left h)
      obtain ⟨hvalue, hrs⟩ := ih m hm (hvalues' n hn) hr hs hrest
      exact ⟨Prod.ext hname hvalue, hrs⟩
    obtain ⟨rfl, hrs⟩ := block_inj (by decide) hitem h
    exact ⟨rfl, hrs⟩
  | _ => exact absurd hform (by simp [form])

/-- **A clean value can be read off the front of a text.** -/
theorem decodes (indent : Int) (h : Clean v) : Decodes indent v := by
  induction h with
  | null => exact decodes_word .null rfl
  | bool b => exact decodes_word (.bool b) rfl
  | int n => exact decodes_word (.int n) rfl
  | @text s hs =>
    intro current w q t hw _ _ h
    have hform := form_eq (.text hs) hw h
    cases hw with
    | @text s' hs' =>
      obtain ⟨rfl, hqt⟩ := inQuotes_inj hs hs' h
      exact ⟨rfl, hqt⟩
    | _ => exact absurd hform (by simp [form])
  | list hvs ih => exact decodes_list hvs ih
  | doc hnames hvalues ih => exact decodes_doc hnames hvalues ih

theorem written_inj (hv : Clean v) (hw : Clean w)
    (h : written indent current v = written indent current w) : v = w := by
  have hnil : Ends [] := by simp [Ends]
  exact (decodes indent hv hw hnil hnil (congrArg (·.toList ++ []) h)).1

abbrev CleanDocument := { ms : Document // Clean (.doc ms) }

abbrev CleanList := { vs : List Value // Clean (.list vs) }

/-- **Different clean documents have different texts, and so have different clean lists.** -/
theorem documentText_listText_injective (indent current : Int) :
    Function.Injective (fun d : CleanDocument => documentText indent current (.doc d.1)) ∧
      Function.Injective (fun l : CleanList => listText indent current (.list l.1)) := by
  constructor
  · intro d e h
    exact Subtype.ext (Value.doc.inj (written_inj d.2 e.2 h))
  · intro l k h
    exact Subtype.ext (Value.list.inj (written_inj l.2 k.2 h))

/-- A double quote in a text can end it and begin another member. -/
example : document (.doc [("a", .text "b\",\n  \"c\": \"d")]) =
    document (.doc [("a", .text "b"), ("c", .text "d")]) := by
  decide

end Shell

end SqlGateway
