import SqlGateway.Proofs.Shell.Decoding
import SqlGateway.Proofs.Shell.Scanning

/-!
# Reading a command

A command shows its documents in a text that escapes nothing.  **The literals of the command are its data, and
its brackets are nested, iff every text and every quoted name keeps to its literal** (`command_reads_iff`).
-/

namespace SqlGateway.Shell

open List Value

variable {c : Char} {digits inner : List Char} {filter plan : Document} {name : String} {v : Value}
  (vs : List Value) (n : Nat)

/-! ### Numbers and times -/

theorem bare_append {a b : List Char} : Bare (a ++ b) ↔ Bare a ∧ Bare b :=
  forall_mem_append

theorem Bare.append {a b : List Char} (ha : Bare a) (hb : Bare b) : Bare (a ++ b) :=
  bare_append.mpr ⟨ha, hb⟩

theorem isBare_of_isDigit (h : c.isDigit) : isBare c := by
  have hcode : ∀ n < 128, (Char.ofNat n).isDigit → isBare (Char.ofNat n) := by decide
  have hlow : c.toNat < 128 := by
    simp only [Char.isDigit, Bool.and_eq_true, decide_eq_true_eq, UInt32.le_iff_toNat_le] at h
    have : c.toNat ≤ 57 := h.2
    omega
  have := hcode c.toNat hlow
  rw [Char.ofNat_toNat] at this
  exact this h

theorem bare_toDigits : Bare (Nat.toDigits 10 n) := fun _ hc =>
  isBare_of_isDigit (Nat.isDigit_of_mem_toDigits (by decide) (by decide) hc)

theorem bare_replicate (h : isBare c) : Bare (replicate n c) := by
  intro d hd
  rw [eq_of_mem_replicate hd]
  exact h

theorem bare_padZeros (width : Nat) (h : Bare digits) : Bare (padZeros width digits) :=
  (bare_replicate _ (by decide)).append h

theorem bare_showInt (n : Int) : Bare (showInt n).toList := by
  intro c hc
  rcases mem_showInt hc with rfl | hdigit
  · decide
  · exact isBare_of_isDigit hdigit

theorem bare_spaces (n : Int) : Bare (spaces n).toList := by
  rw [spaces, String.toList_ofList]
  exact bare_replicate _ (by decide)

theorem bare_positional (h : Bare digits) (point : Int) : Bare (positional digits point) := by
  have hbehind : Bare (if (digits.drop point.toNat).isEmpty then ['0'] else digits.drop point.toNat) := by
    split
    · decide
    · exact fun c hc => h c (mem_of_mem_drop hc)
  rw [positional]
  split
  · exact ((by decide : Bare ['0', '.']).append (bare_replicate _ (by decide))).append h
  · exact (Bare.append (fun c hc => h c (mem_of_mem_take hc)) (bare_replicate _ (by decide))).append
      ((by decide : Bare ['.']).append hbehind)

theorem bare_withExponent (format : DoubleFormat) (h : Bare digits) (point : Int) :
    Bare (withExponent format digits point) := by
  have hbehind : Bare (if (digits.drop 1).isEmpty then [] else '.' :: digits.drop 1) := by
    split
    · decide
    · exact (by decide : Bare ['.']).append fun c hc => h c (mem_of_mem_drop hc)
  have hsign : Bare ['e', if point - 1 < 0 then '-' else '+'] := by
    split <;> decide
  exact (Bare.append (fun c hc => h c (mem_of_mem_take hc)) hbehind).append
    (hsign.append (bare_padZeros _ (bare_toDigits _)))

theorem bare_text (x : Double) : Bare x.text.toList := by
  have hsign : Bare (if x.negative then "-" else "").toList := by split <;> decide
  have hdigits : Bare (dropZeros (Nat.toDigits 10 x.shortest.1)) := by
    intro c hc
    rw [dropZeros, mem_reverse] at hc
    exact bare_toDigits _ c (mem_reverse.mp ((dropWhile_sublist _).subset hc))
  simp only [Double.text, Double.textIn]
  generalize (if x.negative then "-" else "") = sign at hsign ⊢
  split
  · decide
  split
  · rw [String.toList_append]
    exact hsign.append (by decide)
  split
  · rw [String.toList_append]
    exact hsign.append (by decide)
  rw [String.toList_append, String.toList_ofList]
  refine hsign.append ?_
  split
  · exact bare_positional hdigits _
  · exact bare_withExponent _ hdigits _

theorem bare_render (t : Timestamp) : Bare (t.render " ").toList := by
  have hpadded : ∀ width n, Bare (Timestamp.padded width n).toList := by
    intro width n
    rw [Timestamp.padded, String.toList_ofList]
    exact bare_padZeros _ (bare_toDigits _)
  have hmicro : Bare (if t.micro == 0 then "" else "." ++ Timestamp.padded 6 t.micro).toList := by
    split
    · decide
    · rw [String.toList_append]
      exact Bare.append (by decide) (hpadded _ _)
  simp only [Timestamp.render, String.toList_append, bare_append, hpadded, hmicro]
  decide

/-! ### Values -/

/-- The data of a name: none if it begins with `$`, since it is written bare then. -/
def nameLiterals (name : String) : List (List Char) :=
  if ['$'].isPrefixOf name.toList then [] else [name.toList]

mutual
/-- The data that a value shows in double quotes: its texts and the names of its members, in order. -/
def literals : Value → List (List Char)
  | .text s => [s]
  | .list vs => itemLiterals vs
  | .doc ms => memberLiterals ms
  | _ => []

def itemLiterals : List Value → List (List Char)
  | [] => []
  | v :: vs => literals v ++ itemLiterals vs

def memberLiterals : List (String × Value) → List (List Char)
  | [] => []
  | (name, v) :: ms => (nameLiterals name ++ literals v) ++ memberLiterals ms
end

theorem literals_list : literals (.list vs) = vs.flatMap literals := by
  rw [literals]
  induction vs with
  | nil => rfl
  | cons v vs ih => rw [itemLiterals, ih, flatMap_cons]

theorem literals_doc (ms : Document) :
    literals (.doc ms) = ms.flatMap fun m => nameLiterals m.1 ++ literals m.2 := by
  rw [literals]
  induction ms with
  | nil => rfl
  | cons m ms ih => rw [memberLiterals, ih, flatMap_cons]

/-- A value in which only texts and quoted names may hold double quotes and brackets. -/
inductive Tame : Value → Prop
  | null : Tame .null
  | bool (b : Bool) : Tame (.bool b)
  | int (n : Int) : Tame (.int n)
  | float (x : Double) : Tame (.float x)
  | text (s : String) : Tame (.text s)
  | time (t : Timestamp) : Tame (.time t)
  | id {key : ObjectId} : Bare key.hex.toList → Tame (.id key)
  | bytes {data : List UInt8} : Bare (shownBytes data).toList → Tame (.bytes data)
  | list {vs : List Value} : (∀ v ∈ vs, Tame v) → Tame (.list vs)
  | doc {ms : Document} : (∀ m ∈ ms, ['$'].isPrefixOf m.1.toList → Bare m.1.toList) →
      (∀ m ∈ ms, Tame m.2) → Tame (.doc ms)

theorem Woven.nil : Woven [] [] :=
  .bare (by decide)

theorem woven_inQuotes (s : String) : Woven (inQuotes s).toList [s] := by
  rw [toList_inQuotes]
  exact .quoted _

theorem woven_label (h : ['$'].isPrefixOf name.toList → Bare name.toList) :
    Woven (label name).toList (nameLiterals name) := by
  have hcolon : Bare ": " := by decide
  rw [label, nameLiterals]
  split
  case isTrue hbare =>
    rw [String.toList_append]
    exact .bare ((h hbare).append hcolon)
  case isFalse =>
    rw [String.toList_append]
    exact (woven_inQuotes name).append (.bare hcolon)

section

variable {α : Type} {f : α → String} {g : α → List (List Char)} {xs : List α}

theorem woven_lines (h : ∀ x ∈ xs, Woven (f x).toList (g x)) : Woven (lines f xs).toList (xs.flatMap g) := by
  induction xs with
  | nil => exact .nil
  | cons x xs ih =>
    have hcomma : Bare (comma xs).toList := by
      cases xs <;> simp only [toList_comma_nil, toList_comma_cons] <;> decide
    rw [lines, String.toList_append, String.toList_append, flatMap_cons]
    have hfirst := (h x (by simp)).append (.bare hcomma)
    rw [append_nil] at hfirst
    exact hfirst.append (ih (forall_mem_cons.mp h).2)

theorem woven_block {o : Char} (hoc : closing? o = some c) {margin : String} (hmargin : Bare margin.toList)
    (h : ∀ x ∈ xs, Woven (f x).toList (g x)) : Woven (block o c margin f xs) (xs.flatMap g) := by
  cases xs with
  | nil => exact .bracket hoc .nil
  | cons x xs =>
    have hinner := (Woven.bare (s := ['\n']) (by decide)).append ((woven_lines h).append (.bare hmargin))
    simpa [block] using hinner.bracket hoc

end

/-- **A tame value is woven from its data.** -/
theorem Tame.woven (h : Tame v) (indent current : Int) :
    Woven (written indent current v).toList (literals v) := by
  induction h generalizing current with
  | null => rw [written]; exact .bare (by decide)
  | bool b => rw [written]; exact .bare (by cases b <;> decide)
  | int n => rw [written_int]; exact .bare (bare_showInt n)
  | float x => simp only [written, literals]; exact .bare (bare_text x)
  | text s => rw [written]; exact woven_inQuotes s
  | time t => simp only [written, literals]; exact .bare (bare_render t)
  | id h => simp only [written, literals]; exact .bare h
  | bytes h => simp only [written, literals]; exact .bare h
  | list _ ih =>
    rw [toList_written_list, literals_list]
    refine woven_block rfl (bare_spaces _) fun v hv => ?_
    rw [String.toList_append]
    exact (Woven.bare (bare_spaces _)).append (ih v hv _)
  | doc hnames _ ih =>
    rw [toList_written_doc, literals_doc]
    refine woven_block rfl (bare_spaces _) fun m hm => ?_
    rw [String.toList_append, String.toList_append]
    exact ((Woven.bare (bare_spaces _)).append (woven_label (hnames m hm))).append (ih m hm _)

/-! ### Commands -/

/-- What a plan asks of a collection. -/
inductive Instruction where
  | find (filter : Document) (projection sort : Option Document) (skip limit : Option Int)
  | aggregate (stages : List Value)
  | insert (document : Document)
  | insertMany (documents : List Document)
  | update (filter change : Document)
  | delete (filter : Document)

namespace Instruction

/-- A plan gives an instruction; a missing member counts as an empty one. -/
def GivenBy (plan : Document) : Instruction → Prop
  | find filter projection sort skip limit =>
    plan.get "operation" = .text "find" ∧ (plan.get? "query").getD (.doc []) = .doc filter ∧
      plan.get "projection" = .ofOption (projection.map .doc) ∧
      plan.get "sort" = .ofOption (sort.map .doc) ∧
      plan.get "skip" = .ofOption (skip.map .int) ∧ plan.get "limit" = .ofOption (limit.map .int)
  | aggregate stages =>
    plan.get "operation" = .text "aggregate" ∧ (plan.get? "pipeline").getD (.list []) = .list stages
  | insert document =>
    plan.get "operation" = .text "insert" ∧ (plan.get? "document").getD (.doc []) = .doc document
  | insertMany documents =>
    plan.get "operation" = .text "INSERT_MANY" ∧
      (plan.get? "documents").getD (.list []) = .list (documents.map .doc)
  | update filter change =>
    plan.get "operation" = .text "update" ∧ ∃ query : Document, query ≠ [] ∧
      (plan.get? "query").getD (.doc []) = .doc query ∧
      (query.get? "query").getD (.doc []) = .doc filter ∧
      (query.get? "update").getD (.doc []) = .doc change
  | delete filter =>
    plan.get "operation" = .text "delete" ∧ (plan.get? "query").getD (.doc []) = .doc filter

def parts : Instruction → List Value
  | find filter projection sort _ _ =>
    .doc filter :: (projection.toList.map .doc ++ sort.toList.map .doc)
  | aggregate stages => [.list stages]
  | insert document => [.doc document]
  | insertMany documents => [.list (documents.map .doc)]
  | update filter change => [.doc filter, .doc change]
  | delete filter => [.doc filter]

def data (i : Instruction) : List (List Char) :=
  i.parts.flatMap literals

end Instruction

/-- What stands behind the first line of a text, if that is a comment. -/
def code (text : List Char) : List Char :=
  if ['/', '/'].isPrefixOf text then text.dropWhile (· != '\n') else text

theorem code_append {comment : List Char} (h : ['/', '/'].isPrefixOf comment)
    (hline : '\n' ∉ comment) (s : List Char) : code (comment ++ s) = s.dropWhile (· != '\n') := by
  have hopens : ['/', '/'].isPrefixOf (comment ++ s) := by
    obtain ⟨r, rfl⟩ := isPrefixOf_iff_prefix.mp h
    exact isPrefixOf_iff_prefix.mpr ⟨r ++ s, by simp⟩
  rw [code, if_pos hopens, dropWhile_append_of_pos]
  intro c hc
  rw [bne_iff_ne]
  rintro rfl
  exact hline hc

theorem woven_method (name method : List Char) {ls : List (List Char)} (hname : Bare name)
    (hmethod : Bare method) (hinner : Woven inner ls) : Woven (name ++ method ++ '(' :: inner ++ [')']) ls := by
  have hcall := (Woven.bare (hname.append hmethod)).append (.bracket (o := '(') rfl hinner)
  rwa [nil_append, ← append_assoc] at hcall

theorem woven_pretty : Woven ".pretty()" [] :=
  woven_method [] ".pretty" (by decide) (by decide) .nil

theorem woven_command (comment method : List Char) {name back : List Char} {ls ms : List (List Char)}
    (hcomment : ['/', '/'].isPrefixOf comment) (hline : '\n' ∉ comment) (hname : Bare name)
    (hmethod : Bare method) (hinner : Woven inner ls) (hback : Woven back ms) :
    Woven (code (comment ++ ("\ndb." ++ name ++ method ++ '(' :: inner ++ [')'] ++ back)))
      (ls ++ ms) := by
  have hhead : Bare ("\ndb." ++ name) := Bare.append (by decide) hname
  rw [code_append hcomment hline]
  exact (woven_method _ _ hhead hmethod hinner).append hback

theorem document_doc (d : Document) : document (.doc d) = written 2 2 (.doc d) := rfl

theorem list_list : list (.list vs) = written 2 2 (.list vs) := rfl

theorem Tame.woven_shown (h : Tame v) (front back : List Char) (hfront : Bare front)
    (hback : Bare back) : Woven (front ++ (written 2 2 v).toList ++ back) (literals v) := by
  have hshown := ((Woven.bare hfront).append (h.woven 2 2)).append (.bare hback)
  rwa [nil_append, append_nil] at hshown

theorem Tame.woven_command (h : Tame v) {name : List Char} (hname : Bare name) (comment method : List Char)
    {back : List Char} (hcomment : ['/', '/'].isPrefixOf comment) (hline : '\n' ∉ comment)
    (hmethod : Bare method) (hback : Woven back []) :
    Woven (code (comment ++ ("\ndb." ++ name ++ method ++
      '(' :: ('\n' :: (written 2 2 v).toList ++ ['\n']) ++ [')'] ++ back))) (literals v) := by
  have hwoven := Shell.woven_command comment method hcomment hline hname hmethod
    (h.woven_shown ['\n'] ['\n'] (by decide) (by decide)) hback
  rwa [append_nil] at hwoven

section

variable {name : String} (hname : Bare name.toList)
include hname

theorem woven_aggregate {stages : List Value}
    (hpipeline : (plan.get? "pipeline").getD (.list []) = .list stages) (hstages : Tame (.list stages)) :
    ∃ text, aggregate name (.doc plan) = .ok text ∧ Woven (code text.toList) (literals (.list stages)) := by
  have hwoven := hstages.woven_command hname "// Consulta de agregación en MongoDB"
    ".aggregate" (by decide) (by decide) (by decide) woven_pretty
  refine ⟨_, by simp only [aggregate, memberOr, hpipeline]; rfl, ?_⟩
  simpa [list_list] using hwoven

theorem woven_insert {inserted : Document}
    (hdocument : (plan.get? "document").getD (.doc []) = .doc inserted) (hinserted : Tame (.doc inserted)) :
    ∃ text, insert name (.doc plan) = .ok text ∧ Woven (code text.toList) (literals (.doc inserted)) := by
  have hwoven := hinserted.woven_command hname "// Inserción de documento en MongoDB"
    ".insertOne" (by decide) (by decide) (by decide) .nil
  refine ⟨_, by simp only [insert, memberOr, hdocument]; rfl, ?_⟩
  simpa [document_doc] using hwoven

/-- Without documents only a comment is shown; it may hold the name of the collection. -/
theorem woven_insertMany {documents : List Value}
    (hdocuments : (plan.get? "documents").getD (.list []) = .list documents) (htame : Tame (.list documents)) :
    ∃ text, insertMany name (.doc plan) = .ok text ∧ Woven (code text.toList) (literals (.list documents)) := by
  cases documents with
  | nil =>
    refine ⟨_, by simp only [insertMany, memberOr, hdocuments]; rfl, ?_⟩
    rw [String.toList_append, code_append (by decide) (by decide), literals_list]
    exact .bare fun c hc => hname c ((dropWhile_sublist _).subset hc)
  | cons v vs =>
    have hline : '\n' ∉ (showInt ((v :: vs).length : Nat)).toList :=
      fun hmem => absurd (mem_showInt hmem) (by decide)
    refine ⟨_, by simp only [insertMany, memberOr, hdocuments]; rfl, ?_⟩
    generalize showInt _ = count at hline ⊢
    have hwoven := htame.woven_command hname
      ("// Inserción de " ++ count.toList ++ " documentos en MongoDB") ".insertMany"
      (List.isPrefixOf_iff_prefix.mpr (by simp)) (by simpa using hline) (by decide) .nil
    simpa [list_list] using hwoven

theorem woven_update {query change : Document} (hne : query ≠ [])
    (hquery : (plan.get? "query").getD (.doc []) = .doc query)
    (hfilter : (query.get? "query").getD (.doc []) = .doc filter)
    (hchange : (query.get? "update").getD (.doc []) = .doc change) (htame : Tame (.doc filter))
    (htame' : Tame (.doc change)) : ∃ text, update name (.doc plan) = .ok text ∧
      Woven (code text.toList) (literals (.doc filter) ++ literals (.doc change)) := by
  have hwoven := woven_command "// Actualización de documentos en MongoDB" ".updateMany"
    (by decide) (by decide) hname (by decide)
    ((htame.woven_shown ['\n'] [',', '\n'] (by decide) (by decide)).append
      (htame'.woven_shown [] ['\n'] (by decide) (by decide))) .nil
  obtain ⟨m, ms, rfl⟩ := exists_cons_of_ne_nil hne
  refine ⟨_, by simp only [update, memberOr, hquery]; rfl, ?_⟩
  simpa [hfilter, hchange, document_doc] using hwoven

theorem woven_delete (hquery : (plan.get? "query").getD (.doc []) = .doc filter)
    (hfilter : Tame (.doc filter)) : ∃ text, delete name (.doc plan) = .ok text ∧
      Woven (code text.toList) (literals (.doc filter)) := by
  have hwoven := hfilter.woven_command hname "// Eliminación de documentos en MongoDB"
    ".deleteMany" (by decide) (by decide) (by decide) .nil
  refine ⟨_, by simp only [delete, memberOr, hquery]; rfl, ?_⟩
  simpa [document_doc] using hwoven

end

/-! ### Searches -/

theorem woven_optional (frame : String → String)
    (hframe : ∀ {s : String} {ls : List (List Char)}, Woven s ls → Woven (frame s).toList ls)
    {d? : Option Document} (h : ∀ d ∈ d?, Tame (.doc d)) :
    Woven (if (ofOption (d?.map .doc)).isPresent then frame (document (.ofOption (d?.map .doc)))
      else "").toList ((d?.toList.map doc).flatMap literals) := by
  cases d? with
  | none => exact .nil
  | some d =>
    cases d with
    | nil => exact .nil
    | cons m ms => simpa [ofOption, isPresent, document_doc] using hframe ((h _ rfl).woven 2 2)

theorem woven_limited (front : String) (hfront : Bare front.toList) (n : Int) :
    Woven (front ++ "(" ++ (int n).plain ++ ")").toList [] := by
  have hcall := woven_method [] front.toList (by decide) hfront (.bare (bare_showInt n))
  simpa [plain, shown] using hcall

theorem woven_find (hname : Bare name.toList) {projection sort : Option Document}
    {skip limit : Option Int} (hquery : (plan.get? "query").getD (.doc []) = .doc filter)
    (hprojection : plan.get "projection" = .ofOption (projection.map .doc))
    (hsort : plan.get "sort" = .ofOption (sort.map .doc)) (hskip : plan.get "skip" = .ofOption (skip.map .int))
    (hlimit : plan.get "limit" = .ofOption (limit.map .int)) (hfilter : Tame (.doc filter))
    (hshown : ∀ d ∈ projection, Tame (.doc d)) (hsorted : ∀ d ∈ sort, Tame (.doc d)) :
    ∃ text, find name (.doc plan) = .ok text ∧ Woven (code text.toList)
      (Instruction.find filter projection sort skip limit).data := by
  have hwovenShown := woven_optional (fun s => ",\n  " ++ s)
    (fun {s ls} h => by simpa using (Woven.bare (s := ",\n  ") (by decide)).append h) hshown
  have hwovenSorted := woven_optional (fun s => ".sort(" ++ s ++ ")")
    (fun {s ls} h => by simpa using woven_method [] ".sort" (by decide) (by decide) h) hsorted
  have hwovenSkipped : Woven (if (ofOption (skip.map .int)).isPresent then
      ".skip(" ++ (ofOption (skip.map .int)).plain ++ ")" else "").toList [] := by
    cases skip with
    | none => exact .nil
    | some n =>
      split
      · exact woven_limited ".skip" (by decide) n
      · exact .nil
  have hwovenLimited : Woven (if ofOption (limit.map .int) == .null then ""
      else ".limit(" ++ (ofOption (limit.map .int)).plain ++ ")").toList [] := by
    cases limit with
    | none => exact .nil
    | some n => exact woven_limited ".limit" (by decide) n
  simp only [find, memberOr, member, hquery, hprojection, hsort, hskip, hlimit]
  refine ⟨_, rfl, ?_⟩
  have hinner := ((hfilter.woven_shown "\n  " [] (by decide) (by decide)).append
    hwovenShown).append (.bare (s := ['\n']) (by decide))
  have hwoven := woven_command "// Consulta equivalente a SELECT en MongoDB" ".find"
    (by decide) (by decide) hname (by decide) hinner
    (((hwovenSorted.append hwovenSkipped).append hwovenLimited).append woven_pretty)
  simpa [document_doc, Instruction.data, Instruction.parts] using hwoven

/-! ### All commands -/

def Instruction.writer : Instruction → String → Value → Except Fault String
  | find .. => Shell.find
  | aggregate .. => Shell.aggregate
  | insert .. => Shell.insert
  | insertMany .. => Shell.insertMany
  | update .. => Shell.update
  | delete .. => Shell.delete

theorem command_eq_writer {i : Instruction} (hplan : i.GivenBy plan) (collection : Value) :
    command collection (.doc plan) = i.writer collection.plain (.doc plan) := by
  have hpresent : ∀ operation : String, operation ≠ "" → (text operation).isPresent := by
    simp [isPresent]
  have hbind : ∀ {α : Type} (a : α) (f : α → Except Fault String), (Except.ok a >>= f) = f a := fun _ _ => rfl
  cases i <;>
  simp only [command, member, asName, hplan.1, hbind, hpresent, ne_eq, String.reduceEq,
    not_false_eq_true, Bool.not_true, Bool.false_eq_true, ↓reduceIte, Instruction.writer]

/-- **A command is woven from its data.** -/
theorem Instruction.woven {collection : Value} (hname : Bare collection.plain.toList) {i : Instruction}
    (hplan : i.GivenBy plan) (htame : ∀ v ∈ i.parts, Tame v) :
    ∃ text, command collection (.doc plan) = .ok text ∧ Woven (code text.toList) i.data := by
  rw [command_eq_writer hplan]
  cases i with
  | find filter projection sort skip limit =>
    obtain ⟨-, hquery, hprojection, hsort, hskip, hlimit⟩ := hplan
    simp only [parts, forall_mem_cons, forall_mem_append, forall_mem_map] at htame
    exact woven_find hname hquery hprojection hsort hskip hlimit htame.1
      (fun d hd => htame.2.1 d (Option.mem_toList.mpr hd)) fun d hd => htame.2.2 d (Option.mem_toList.mpr hd)
  | aggregate stages => simpa [data, parts, writer] using woven_aggregate hname hplan.2 (htame _ (by simp [parts]))
  | insert inserted => simpa [data, parts, writer] using woven_insert hname hplan.2 (htame _ (by simp [parts]))
  | insertMany documents =>
    simpa [data, parts, writer] using woven_insertMany hname hplan.2 (htame _ (by simp [parts]))
  | update filter change =>
    obtain ⟨-, query, hne, hquery, hfilter, hchange⟩ := hplan
    simpa [data, parts, writer] using woven_update hname hne hquery hfilter hchange (htame _ (by simp [parts]))
      (htame _ (by simp [parts]))
  | delete filter => simpa [data, parts, writer] using woven_delete hname hplan.2 (htame _ (by simp [parts]))

/-- **When a command can be read.** -/
theorem command_reads_iff {collection : Value} (hname : Bare collection.plain.toList) {plan : Document}
    {i : Instruction} (hplan : i.GivenBy plan) (htame : ∀ v ∈ i.parts, Tame v) :
    ∃ text, command collection (.doc plan) = .ok text ∧
      (Reads (code text.toList) i.data ↔ ∀ l ∈ i.data, Contained l) := by
  obtain ⟨text, htext, hwoven⟩ := Instruction.woven hname hplan htame
  exact ⟨text, htext, hwoven.reads_iff⟩

/-- The insertion of a text with a double quote in it. -/
def quoteInsertion : Document :=
  [("operation", .text "insert"), ("document", .doc [("a", .text "x\"y")])]

/-- Its command cannot be read: the text ends at its double quote, and the command inside a literal. -/
theorem command_quoteInsertion : Bare (Value.text "t").plain.toList ∧
    (Instruction.insert [("a", .text "x\"y")]).GivenBy quoteInsertion ∧
    (∀ v ∈ (Instruction.insert [("a", .text "x\"y")]).parts, Tame v) ∧
    ∃ text, command (.text "t") (.doc quoteInsertion) = .ok text ∧
      ¬ Reads (code text.toList) [['a'], ['x', '"', 'y']] ∧
      (Scan.start.run (code text.toList)).any (fun s => s.literal.isSome) = true := by
  have hname : Bare (text "t").plain.toList := by decide
  have hplan : (Instruction.insert [("a", .text "x\"y")]).GivenBy quoteInsertion := ⟨rfl, rfl⟩
  have htame : ∀ v ∈ (Instruction.insert [("a", .text "x\"y")]).parts, Tame v := by
    simp only [Instruction.parts, mem_singleton]
    rintro v rfl
    refine .doc ?_ ?_ <;> simp only [mem_singleton] <;> rintro m rfl
    · decide
    · exact .text _
  obtain ⟨text, htext, hreads⟩ := command_reads_iff hname hplan htame
  refine ⟨hname, hplan, htame, text, htext, fun h => ?_, ?_⟩
  · exact absurd (hreads.mp h ['x', '"', 'y'] (by decide)) (by decide)
  · have hcommand : command (.text "t") (.doc quoteInsertion) =
        .ok ("// Inserción de documento en MongoDB\n" ++ "db." ++ "t" ++ ".insertOne(\n" ++
          document (.doc [("a", .text "x\"y")]) ++ "\n)") := rfl
    obtain rfl := Except.ok.inj (htext.symm.trans hcommand)
    decide

end SqlGateway.Shell
