import SSize.Lib.References
import Mathlib.Data.List.Basic

/-!
# The tags of an HTML text

The tokenizer of the HTML standard as a machine over bytes: `Lex` has its states,
`step` its transitions, and what it finds out about tags comes out as marks that
`assemble` puts together. Comments, doctypes and character data leave no mark. All
that the syntax is made of is ASCII, so the encoding of other characters plays no
part.

Which start tags switch to raw text is decided by their names, as the tree builder
does in HTML content. There is no foreign content, so a CDATA section is a bogus
comment.
-/

namespace SSize.Lib.Markup

/-! ## Input -/

def isSpace (c : UInt8) : Bool :=
  c == '\t'.toUInt8 || c == '\n'.toUInt8 || c == 0x0c || c == ' '.toUInt8

def isLetter (c : UInt8) : Bool :=
  ('A'.toUInt8 ≤ c && c ≤ 'Z'.toUInt8) || ('a'.toUInt8 ≤ c && c ≤ 'z'.toUInt8)

def lower (c : UInt8) : UInt8 :=
  if 'A'.toUInt8 ≤ c && c ≤ 'Z'.toUInt8 then c + 32 else c

/-- In names and values U+0000 is read as U+FFFD. -/
def visible (c : UInt8) : Text := if c = 0 then [0xef, 0xbf, 0xbd] else [c]

/-- `\r\n` and `\r` are read as `\n`. -/
def normalizeNewlines : Bool → Text → Text
  | _, [] => []
  | afterCr, c :: rest =>
      if c = '\r'.toUInt8 then '\n'.toUInt8 :: normalizeNewlines true rest
      else if c = '\n'.toUInt8 ∧ afterCr then normalizeNewlines false rest
      else c :: normalizeNewlines false rest

/-! ## States -/

structure Head where
  closing : Bool := false
  name : Text
deriving DecidableEq, Repr

/-- Text in which only the end tag of its element counts. The escaped states are
those of a script behind `<!--`. -/
inductive Raw where
  | element (name : Text)
  | script
  | escaped
deriving DecidableEq, Repr

def Raw.name : Raw → Text
  | .element name => name
  | .script => bytes "script"
  | .escaped => bytes "script"

inductive Lex where
  | data
  | plaintext
  | tagOpen
  | endTagOpen
  | tagName (head : Head)
  | beforeAttributeName (head : Head)
  | attributeName (head : Head)
  | afterAttributeName (head : Head)
  | beforeAttributeValue (head : Head)
  | doubleQuoted (head : Head)
  | singleQuoted (head : Head)
  | unquoted (head : Head)
  | afterAttributeValue (head : Head)
  | selfClosing (head : Head)
  | markupDeclaration (seen : Text)
  | bogusComment
  | doctype
  | commentStart
  | commentStartDash
  | comment
  | commentLessThan
  | commentLessThanBang
  | commentLessThanBangDash
  | commentLessThanBangDashDash
  | commentEndDash
  | commentEnd
  | commentEndBang
  | raw (r : Raw)
  | rawLessThan (r : Raw)
  | rawEndTagOpen (r : Raw)
  | rawEndTagName (r : Raw) (seen : Text)
  | escapeStart
  | escapeStartDash
  | escapedDash
  | escapedDashDash
  | doubleEscapeStart (seen : Text)
  | doubleEscaped
  | doubleEscapedDash
  | doubleEscapedDashDash
  | doubleEscapedLessThan
  | doubleEscapeEnd (seen : Text)
deriving DecidableEq, Repr

inductive Mark where
  /-- Another attribute of the current tag begins. -/
  | newAttribute
  | nameByte (c : UInt8)
  | valueByte (c : UInt8)
  /-- The current tag is complete. -/
  | tag (head : Head)
deriving DecidableEq, Repr

/-! ## Tags -/

def rawElements : List Text :=
  ["title", "textarea", "style", "xmp", "iframe", "noembed", "noframes", "noscript"].map bytes

def afterTag (head : Head) : Lex :=
  if head.closing then .data
  else if head.name = bytes "script" then .raw .script
  else if head.name = bytes "plaintext" then .plaintext
  else if rawElements.contains head.name then .raw (.element head.name)
  else .data

def emit (head : Head) : Lex × List Mark := (afterTag head, [.tag head])

def nameBytes (c : UInt8) : List Mark := (visible (lower c)).map .nameByte

def valueBytes (c : UInt8) : List Mark := (visible c).map .valueByte

def stepBeforeAttributeName (head : Head) (c : UInt8) : Lex × List Mark :=
  if isSpace c then (.beforeAttributeName head, [])
  else if c = '/'.toUInt8 then (.selfClosing head, [])
  else if c = '>'.toUInt8 then emit head
  -- Even `=` is a name here.
  else (.attributeName head, .newAttribute :: nameBytes c)

def stepAttributeName (head : Head) (c : UInt8) : Lex × List Mark :=
  if isSpace c then (.afterAttributeName head, [])
  else if c = '/'.toUInt8 then (.selfClosing head, [])
  else if c = '>'.toUInt8 then emit head
  else if c = '='.toUInt8 then (.beforeAttributeValue head, [])
  else (.attributeName head, nameBytes c)

def stepAfterAttributeName (head : Head) (c : UInt8) : Lex × List Mark :=
  if isSpace c then (.afterAttributeName head, [])
  else if c = '='.toUInt8 then (.beforeAttributeValue head, [])
  else stepBeforeAttributeName head c

def stepUnquoted (head : Head) (c : UInt8) : Lex × List Mark :=
  if isSpace c then (.beforeAttributeName head, [])
  else if c = '>'.toUInt8 then emit head
  else (.unquoted head, valueBytes c)

def stepBeforeAttributeValue (head : Head) (c : UInt8) : Lex × List Mark :=
  if isSpace c then (.beforeAttributeValue head, [])
  else if c = '"'.toUInt8 then (.doubleQuoted head, [])
  else if c = '\''.toUInt8 then (.singleQuoted head, [])
  else stepUnquoted head c

def stepQuoted (quote : UInt8) (stay : Lex) (head : Head) (c : UInt8) : Lex × List Mark :=
  if c = quote then (.afterAttributeValue head, []) else (stay, valueBytes c)

def stepSelfClosing (head : Head) (c : UInt8) : Lex × List Mark :=
  if c = '>'.toUInt8 then emit head else stepBeforeAttributeName head c

def stepTagName (head : Head) (c : UInt8) : Lex × List Mark :=
  if isSpace c then (.beforeAttributeName head, [])
  else if c = '/'.toUInt8 then (.selfClosing head, [])
  else if c = '>'.toUInt8 then emit head
  else (.tagName { head with name := head.name ++ visible (lower c) }, [])

/-! ## Everything else -/

def stepData (c : UInt8) : Lex := if c = '<'.toUInt8 then .tagOpen else .data

def stepBogusComment (c : UInt8) : Lex := if c = '>'.toUInt8 then .data else .bogusComment

def stepTagOpen (c : UInt8) : Lex :=
  if c = '!'.toUInt8 then .markupDeclaration []
  else if c = '/'.toUInt8 then .endTagOpen
  else if isLetter c then .tagName ⟨false, [lower c]⟩
  else if c = '?'.toUInt8 then .bogusComment
  else stepData c

def stepEndTagOpen (c : UInt8) : Lex :=
  if isLetter c then .tagName ⟨true, [lower c]⟩ else stepBogusComment c

def stepMarkupDeclaration (seen : Text) (c : UInt8) : Lex :=
  let seen := seen ++ [lower c]
  if seen = bytes "--" then .commentStart
  else if seen = bytes "doctype" then .doctype
  else if seen.isPrefixOf (bytes "--") || seen.isPrefixOf (bytes "doctype") then
    .markupDeclaration seen
  else stepBogusComment c

def stepComment (c : UInt8) : Lex :=
  if c = '<'.toUInt8 then .commentLessThan
  else if c = '-'.toUInt8 then .commentEndDash
  else .comment

def stepCommentEndDash (c : UInt8) : Lex :=
  if c = '-'.toUInt8 then .commentEnd else stepComment c

def stepCommentEnd (c : UInt8) : Lex :=
  if c = '>'.toUInt8 then .data
  else if c = '!'.toUInt8 then .commentEndBang
  else if c = '-'.toUInt8 then .commentEnd
  else stepComment c

def stepCommentStart (dash : Lex) (c : UInt8) : Lex :=
  if c = '-'.toUInt8 then dash
  else if c = '>'.toUInt8 then .data
  else stepComment c

def stepEscaped (dash : Lex) (c : UInt8) : Lex :=
  if c = '-'.toUInt8 then dash
  else if c = '<'.toUInt8 then .rawLessThan .escaped
  else .raw .escaped

def stepDoubleEscaped (dash : Lex) (c : UInt8) : Lex :=
  if c = '-'.toUInt8 then dash
  else if c = '<'.toUInt8 then .doubleEscapedLessThan
  else .doubleEscaped

def stepRaw (r : Raw) (c : UInt8) : Lex :=
  match r with
  | .escaped => stepEscaped .escapedDash c
  | r => if c = '<'.toUInt8 then .rawLessThan r else .raw r

def stepRawLessThan (r : Raw) (c : UInt8) : Lex :=
  if c = '/'.toUInt8 then .rawEndTagOpen r
  else if r = .script ∧ c = '!'.toUInt8 then .escapeStart
  else if r = .escaped ∧ isLetter c then .doubleEscapeStart [lower c]
  else stepRaw r c

def stepRawEndTagName (r : Raw) (seen : Text) (c : UInt8) : Lex × List Mark :=
  if isLetter c then (.rawEndTagName r (seen ++ [lower c]), [])
  else if seen = r.name ∧ (isSpace c || c == '/'.toUInt8 || c == '>'.toUInt8) then
    stepTagName ⟨true, seen⟩ c
  else (stepRaw r c, [])

/-- The name behind `<` or `</` in an escaped script is over. -/
def stepDoubleEscape (seen : Text) (more : Text → Lex) (isScript other : Lex) (resume : UInt8 → Lex)
    (c : UInt8) : Lex :=
  if isLetter c then more (seen ++ [lower c])
  else if isSpace c || c == '/'.toUInt8 || c == '>'.toUInt8 then
    if seen = bytes "script" then isScript else other
  else resume c

def step : Lex → UInt8 → Lex × List Mark
  | .data, c => (stepData c, [])
  | .plaintext, _ => (.plaintext, [])
  | .tagOpen, c => (stepTagOpen c, [])
  | .endTagOpen, c => (stepEndTagOpen c, [])
  | .tagName head, c => stepTagName head c
  | .beforeAttributeName head, c => stepBeforeAttributeName head c
  | .attributeName head, c => stepAttributeName head c
  | .afterAttributeName head, c => stepAfterAttributeName head c
  | .beforeAttributeValue head, c => stepBeforeAttributeValue head c
  | .doubleQuoted head, c => stepQuoted '"'.toUInt8 (.doubleQuoted head) head c
  | .singleQuoted head, c => stepQuoted '\''.toUInt8 (.singleQuoted head) head c
  | .unquoted head, c => stepUnquoted head c
  -- A missing space is an error that changes nothing.
  | .afterAttributeValue head, c => stepBeforeAttributeName head c
  | .selfClosing head, c => stepSelfClosing head c
  | .markupDeclaration seen, c => (stepMarkupDeclaration seen c, [])
  | .bogusComment, c => (stepBogusComment c, [])
  -- Every state of a doctype ends with it.
  | .doctype, c => (if c = '>'.toUInt8 then .data else .doctype, [])
  | .commentStart, c => (stepCommentStart .commentStartDash c, [])
  | .commentStartDash, c => (stepCommentStart .commentEnd c, [])
  | .comment, c => (stepComment c, [])
  | .commentLessThan, c =>
      (if c = '!'.toUInt8 then .commentLessThanBang else stepComment c, [])
  | .commentLessThanBang, c =>
      (if c = '-'.toUInt8 then .commentLessThanBangDash else stepComment c, [])
  | .commentLessThanBangDash, c =>
      (if c = '-'.toUInt8 then .commentLessThanBangDashDash else stepCommentEndDash c, [])
  | .commentLessThanBangDashDash, c => (stepCommentEnd c, [])
  | .commentEndDash, c => (stepCommentEndDash c, [])
  | .commentEnd, c => (stepCommentEnd c, [])
  | .commentEndBang, c => (stepCommentStart .commentEndDash c, [])
  | .raw r, c => (stepRaw r c, [])
  | .rawLessThan r, c => (stepRawLessThan r c, [])
  | .rawEndTagOpen r, c =>
      (if isLetter c then .rawEndTagName r [lower c] else stepRaw r c, [])
  | .rawEndTagName r seen, c => stepRawEndTagName r seen c
  | .escapeStart, c =>
      (if c = '-'.toUInt8 then .escapeStartDash else stepRaw .script c, [])
  | .escapeStartDash, c =>
      (if c = '-'.toUInt8 then .escapedDashDash else stepRaw .script c, [])
  | .escapedDash, c => (stepEscaped .escapedDashDash c, [])
  | .escapedDashDash, c =>
      (if c = '>'.toUInt8 then .raw .script else stepEscaped .escapedDashDash c, [])
  | .doubleEscapeStart seen, c =>
      (stepDoubleEscape seen .doubleEscapeStart .doubleEscaped (.raw .escaped)
        (stepRaw .escaped) c, [])
  | .doubleEscaped, c => (stepDoubleEscaped .doubleEscapedDash c, [])
  | .doubleEscapedDash, c => (stepDoubleEscaped .doubleEscapedDashDash c, [])
  | .doubleEscapedDashDash, c =>
      (if c = '>'.toUInt8 then .raw .script else stepDoubleEscaped .doubleEscapedDashDash c, [])
  | .doubleEscapedLessThan, c =>
      (if c = '/'.toUInt8 then .doubleEscapeEnd [] else stepDoubleEscaped .doubleEscapedDash c, [])
  | .doubleEscapeEnd seen, c =>
      (stepDoubleEscape seen .doubleEscapeEnd (.raw .escaped) .doubleEscaped
        (stepDoubleEscaped .doubleEscapedDash) c, [])

def run : Lex → Text → Lex × List Mark
  | s, [] => (s, [])
  | s, c :: rest =>
      let (t, marks) := step s c
      let (u, later) := run t rest
      (u, marks ++ later)

/-! ## Putting tags together -/

abbrev Attribute := Text × Text

structure Tag where
  head : Head
  attributes : List Attribute
deriving DecidableEq, Repr

/-- Of the attributes of one name the oldest counts. The newest comes first. -/
def distinct : List Attribute → List Attribute
  | [] => []
  | a :: older =>
      if (distinct older).any (fun b => b.1 == a.1) then distinct older else a :: distinct older

/-- The attributes of the current tag after a mark, the newest first. -/
def collect : List Attribute → Mark → List Attribute
  | attrs, .newAttribute => ([], []) :: attrs
  | (name, value) :: attrs, .nameByte c => (name ++ [c], value) :: attrs
  | (name, value) :: attrs, .valueByte c => (name, value ++ [c]) :: attrs
  | _, .tag _ => []
  | [], _ => []

def assemble : List Attribute → List Mark → List Tag
  | _, [] => []
  | attrs, .tag head :: rest => ⟨head, (distinct attrs).reverse⟩ :: assemble [] rest
  | attrs, mark :: rest => assemble (collect attrs mark) rest

/-- The start and end tags of a text with their attributes, as they are written. -/
def tags (html : Text) : List Tag := assemble [] (run .data (normalizeNewlines false html)).2

def Tag.decode (refs : References) (t : Tag) : Tag :=
  { t with attributes := t.attributes.map fun a => (a.1, refs.decode a.2) }

def Tag.setAttribute (t : Tag) (name value : Text) : Tag :=
  { t with attributes := t.attributes.map fun a => if a.1 = name then (name, value) else a }

/-- The text as a value: what the tokenizer makes of its bytes. -/
def shown (x : Text) : Text := x.flatMap visible

/-- What a reader makes of a quoted attribute value that is written as `x`. -/
def readValue (refs : References) (x : Text) : Text :=
  refs.decode (shown (normalizeNewlines false x))

/-! ## Runs and marks in parts -/

variable {s t : Lex} {x y : Text} {marks more : List Mark} {attrs : List Attribute}

theorem run_append (s : Lex) (x y : Text) :
    run s (x ++ y) = ((run (run s x).1 y).1, (run s x).2 ++ (run (run s x).1 y).2) := by
  induction x generalizing s with
  | nil => rfl
  | cons c x ih =>
      rw [List.cons_append]
      simp only [run, ih, List.append_assoc]

theorem run_of_parts (hx : run s x = (t, marks)) (y : Text) :
    run s (x ++ y) = ((run t y).1, marks ++ (run t y).2) := by
  rw [run_append, hx]

theorem assemble_append (attrs : List Attribute) (marks more : List Mark) :
    assemble attrs (marks ++ more) =
      assemble attrs marks ++ assemble (marks.foldl collect attrs) more := by
  induction marks generalizing attrs with
  | nil => rfl
  | cons mark marks ih =>
      cases mark with
      | tag head => simp only [List.cons_append, assemble, ih, List.foldl_cons, collect]
      | newAttribute | nameByte c | valueByte c =>
          simp only [List.cons_append, assemble, ih, List.foldl_cons]

theorem foldl_collect_names (name value : Text) (attrs : List Attribute) (x : Text) :
    (x.map Mark.nameByte).foldl collect ((name, value) :: attrs) =
      (name ++ x, value) :: attrs := by
  induction x generalizing name with
  | nil => simp
  | cons c x ih => simp [collect, ih]

theorem foldl_collect_values (name value : Text) (attrs : List Attribute) (x : Text) :
    (x.map Mark.valueByte).foldl collect ((name, value) :: attrs) =
      (name, value ++ x) :: attrs := by
  induction x generalizing value with
  | nil => simp
  | cons c x ih => simp [collect, ih]

/-- Marks that complete no tag. -/
def Quiet (marks : List Mark) : Prop := ∀ head, Mark.tag head ∉ marks

theorem assemble_of_quiet (h : Quiet marks) (attrs : List Attribute) :
    assemble attrs marks = [] := by
  induction marks generalizing attrs with
  | nil => rfl
  | cons mark marks ih =>
      have hrest : Quiet marks := fun head hmem => h head (List.mem_cons_of_mem _ hmem)
      cases mark with
      | tag head => exact absurd List.mem_cons_self (h head)
      | newAttribute | nameByte c | valueByte c => exact ih hrest _

theorem assemble_names (name value : Text) (attrs : List Attribute) (x : Text)
    (more : List Mark) :
    assemble ((name, value) :: attrs) (x.map .nameByte ++ more) =
      assemble ((name ++ x, value) :: attrs) more := by
  have hquiet : Quiet (x.map .nameByte) := fun head => by simp
  rw [assemble_append, assemble_of_quiet hquiet, foldl_collect_names, List.nil_append]

theorem assemble_values (name value : Text) (attrs : List Attribute) (x : Text)
    (more : List Mark) :
    assemble ((name, value) :: attrs) (x.map .valueByte ++ more) =
      assemble ((name, value ++ x) :: attrs) more := by
  have hquiet : Quiet (x.map .valueByte) := fun head => by simp
  rw [assemble_append, assemble_of_quiet hquiet, foldl_collect_values, List.nil_append]

theorem mark_of_mem_assemble {tag : Tag} (h : tag ∈ assemble attrs marks) :
    .tag tag.head ∈ marks := by
  induction marks generalizing attrs with
  | nil => simp [assemble] at h
  | cons mark marks ih =>
      cases mark with
      | tag head =>
          rcases List.mem_cons.1 h with rfl | h
          · exact List.mem_cons_self
          · exact List.mem_cons_of_mem _ (ih h)
      | newAttribute | nameByte c | valueByte c => exact List.mem_cons_of_mem _ (ih h)

/-! ## Inside a quoted value -/

theorem run_doubleQuoted (head : Head) (h : '"'.toUInt8 ∉ x) :
    run (.doubleQuoted head) x = (.doubleQuoted head, (shown x).map .valueByte) := by
  induction x with
  | nil => rfl
  | cons c x ih =>
      obtain ⟨hc, hx⟩ := not_or.1 (mt List.mem_cons.2 h)
      have hstep : step (.doubleQuoted head) c = (.doubleQuoted head, valueBytes c) :=
        if_neg (Ne.symm hc)
      simp only [run, hstep, ih hx, shown, List.flatMap_cons, List.map_append, valueBytes]

/-! ## Behind a complete attribute -/

variable {head : Head}

/-- The states inside a tag in which the attributes so far are complete. -/
inductive Fresh (head : Head) : Lex → Prop
  | beforeAttributeName : Fresh head (.beforeAttributeName head)
  | afterAttributeValue : Fresh head (.afterAttributeValue head)
  | selfClosing : Fresh head (.selfClosing head)

/-- The states inside a tag in which the newest attribute may get more bytes. -/
inductive Growing (head : Head) : Lex → Prop
  | attributeName : Growing head (.attributeName head)
  | afterAttributeName : Growing head (.afterAttributeName head)
  | beforeAttributeValue : Growing head (.beforeAttributeValue head)
  | doubleQuoted : Growing head (.doubleQuoted head)
  | singleQuoted : Growing head (.singleQuoted head)
  | unquoted : Growing head (.unquoted head)

/-- What a byte does inside a tag: it completes the tag, or the state stays inside
and no byte goes to an attribute that was complete. -/
inductive Stays (head : Head) (s : Lex) : Lex × List Mark → Prop
  | emit : Stays head s (emit head)
  | fresh {t : Lex} (ht : Fresh head t) : Stays head s (t, [])
  | begin {t : Lex} {marks : List Mark} (ht : Growing head t) (hquiet : Quiet marks) :
      Stays head s (t, .newAttribute :: marks)
  | grow {t : Lex} {marks : List Mark} (hs : Growing head s) (ht : Growing head t)
      (hquiet : Quiet marks) : Stays head s (t, marks)

theorem quiet_nameBytes (c : UInt8) : Quiet (nameBytes c) := by
  intro head
  simp [nameBytes]

theorem quiet_valueBytes (c : UInt8) : Quiet (valueBytes c) := by
  intro head
  simp [valueBytes]

theorem quiet_nil : Quiet [] := fun _ => List.not_mem_nil

theorem stays_beforeAttributeName (s : Lex) (c : UInt8) :
    Stays head s (stepBeforeAttributeName head c) := by
  unfold stepBeforeAttributeName
  split
  · exact .fresh .beforeAttributeName
  split
  · exact .fresh .selfClosing
  split
  · exact .emit
  · exact .begin .attributeName (quiet_nameBytes c)

theorem stays_of_fresh (hs : Fresh head s) (c : UInt8) : Stays head s (step s c) := by
  cases hs with
  | beforeAttributeName => exact stays_beforeAttributeName _ c
  | afterAttributeValue => exact stays_beforeAttributeName _ c
  | selfClosing =>
      show Stays head _ (stepSelfClosing head c)
      unfold stepSelfClosing
      split
      · exact .emit
      · exact stays_beforeAttributeName _ c

theorem stays_unquoted (hs : Growing head s) (c : UInt8) : Stays head s (stepUnquoted head c) := by
  unfold stepUnquoted
  split
  · exact .fresh .beforeAttributeName
  split
  · exact .emit
  · exact .grow hs .unquoted (quiet_valueBytes c)

theorem stays_quoted (hs : Growing head s) (quote c : UInt8) :
    Stays head s (stepQuoted quote s head c) := by
  unfold stepQuoted
  split
  · exact .fresh .afterAttributeValue
  · exact .grow hs hs (quiet_valueBytes c)

theorem stays_of_growing (hs : Growing head s) (c : UInt8) : Stays head s (step s c) := by
  cases hs with
  | attributeName =>
      show Stays head _ (stepAttributeName head c)
      unfold stepAttributeName
      split
      · exact .grow .attributeName .afterAttributeName quiet_nil
      split
      · exact .fresh .selfClosing
      split
      · exact .emit
      split
      · exact .grow .attributeName .beforeAttributeValue quiet_nil
      · exact .grow .attributeName .attributeName (quiet_nameBytes c)
  | afterAttributeName =>
      show Stays head _ (stepAfterAttributeName head c)
      unfold stepAfterAttributeName
      split
      · exact .grow .afterAttributeName .afterAttributeName quiet_nil
      split
      · exact .grow .afterAttributeName .beforeAttributeValue quiet_nil
      · exact stays_beforeAttributeName _ c
  | beforeAttributeValue =>
      show Stays head _ (stepBeforeAttributeValue head c)
      unfold stepBeforeAttributeValue
      split
      · exact .grow .beforeAttributeValue .beforeAttributeValue quiet_nil
      split
      · exact .grow .beforeAttributeValue .doubleQuoted quiet_nil
      split
      · exact .grow .beforeAttributeValue .singleQuoted quiet_nil
      · exact stays_unquoted .beforeAttributeValue c
  | doubleQuoted => exact stays_quoted .doubleQuoted _ c
  | singleQuoted => exact stays_quoted .singleQuoted _ c
  | unquoted => exact stays_unquoted .unquoted c

/-- Bytes go to the newest attribute only. -/
theorem foldl_collect_quiet (h : Quiet marks) {newer : List Attribute} (hnewer : newer ≠ [])
    (attrs : List Attribute) :
    ∃ newer', newer' ≠ [] ∧ marks.foldl collect (newer ++ attrs) = newer' ++ attrs := by
  induction marks generalizing newer with
  | nil => exact ⟨newer, hnewer, rfl⟩
  | cons mark marks ih =>
      have hrest : Quiet marks := fun head hmem => h head (List.mem_cons_of_mem _ hmem)
      obtain ⟨⟨name, value⟩, newer, rfl⟩ := List.exists_cons_of_ne_nil hnewer
      cases mark with
      | tag head => exact absurd List.mem_cons_self (h head)
      | newAttribute => exact ih hrest (List.cons_ne_nil ([], []) ((name, value) :: newer))
      | nameByte c => exact ih hrest (List.cons_ne_nil (name ++ [c], value) newer)
      | valueByte c => exact ih hrest (List.cons_ne_nil (name, value ++ [c]) newer)

/-- Whatever follows, the first tag that is completed has the attributes so far. -/
theorem first_tag (attrs : List Attribute) (x : Text) {newer : List Attribute}
    (hs : Fresh head s ∨ Growing head s ∧ newer ≠ []) :
    assemble (newer ++ attrs) (run s x).2 = [] ∨
      ∃ newer' rest, assemble (newer ++ attrs) (run s x).2 =
        ⟨head, (distinct (newer' ++ attrs)).reverse⟩ :: rest := by
  induction x generalizing s newer with
  | nil => exact Or.inl rfl
  | cons c x ih =>
      have hstays : Stays head s (step s c) :=
        hs.elim (fun h => stays_of_fresh h c) (fun h => stays_of_growing h.1 c)
      have hmore : ∀ {t : Lex} {marks : List Mark} {newer' : List Attribute},
          Quiet marks → marks.foldl collect (newer ++ attrs) = newer' ++ attrs →
          (Fresh head t ∨ Growing head t ∧ newer' ≠ []) →
          assemble (newer ++ attrs) (marks ++ (run t x).2) = [] ∨
            ∃ newer'' rest, assemble (newer ++ attrs) (marks ++ (run t x).2) =
              ⟨head, (distinct (newer'' ++ attrs)).reverse⟩ :: rest := by
        intro t marks newer' hquiet hcollect ht
        rw [assemble_append, assemble_of_quiet hquiet, List.nil_append, hcollect]
        exact ih ht
      rw [run]
      cases hstep : step s c with
      | mk t marks =>
          rw [hstep] at hstays
          simp only
          cases hstays with
          | emit => exact Or.inr ⟨newer, _, rfl⟩
          | fresh ht => exact hmore quiet_nil rfl (Or.inl ht)
          | @begin _ marks ht hquiet =>
              obtain ⟨newer', hne, hcollect⟩ := foldl_collect_quiet hquiet
                (List.cons_ne_nil ([], []) newer) attrs
              refine hmore ?_ hcollect (Or.inr ⟨ht, hne⟩)
              intro head' hmem
              rcases List.mem_cons.1 hmem with hmem | hmem
              · simp at hmem
              · exact hquiet head' hmem
          | grow hgrowing ht hquiet =>
              rcases hs with hfresh | ⟨-, hnewer⟩
              · cases hfresh <;> cases hgrowing
              · obtain ⟨newer', hne, hcollect⟩ := foldl_collect_quiet hquiet hnewer attrs
                exact hmore hquiet hcollect (Or.inr ⟨ht, hne⟩)

/-! ## Older attributes -/

theorem distinct_append (newer attrs : List Attribute) :
    ∃ newer', distinct (newer ++ attrs) = newer' ++ distinct attrs := by
  induction newer with
  | nil => exact ⟨[], rfl⟩
  | cons a newer ih =>
      obtain ⟨newer', hnewer⟩ := ih
      rw [List.cons_append, distinct]
      split
      · exact ⟨newer', hnewer⟩
      · exact ⟨a :: newer', by rw [hnewer, List.cons_append]⟩

/-- So later attributes do not change the value of one that is there. -/
theorem lookup_distinct_append {name value : Text} {attrs : List Attribute}
    (h : (distinct attrs).reverse.lookup name = some value) (newer : List Attribute) :
    (distinct (newer ++ attrs)).reverse.lookup name = some value := by
  obtain ⟨newer', hnewer⟩ := distinct_append newer attrs
  rw [hnewer, List.reverse_append, List.lookup_append, h, Option.some_or]

/-! ## Newlines -/

/-- The byte before the next one is a carriage return. -/
def endsInCr : Bool → Text → Bool
  | afterCr, [] => afterCr
  | _, c :: rest => endsInCr (c == '\r'.toUInt8) rest

theorem normalizeNewlines_append (afterCr : Bool) (x y : Text) :
    normalizeNewlines afterCr (x ++ y) =
      normalizeNewlines afterCr x ++ normalizeNewlines (endsInCr afterCr x) y := by
  induction x generalizing afterCr with
  | nil => rfl
  | cons c x ih =>
      rw [List.cons_append, normalizeNewlines, normalizeNewlines, endsInCr]
      by_cases hcr : c = '\r'.toUInt8
      · rw [if_pos hcr, if_pos hcr, hcr, beq_self_eq_true, ih, List.cons_append]
      · rw [if_neg hcr, if_neg hcr, beq_false_of_ne hcr]
        by_cases hlf : c = '\n'.toUInt8 ∧ afterCr = true
        · rw [if_pos hlf, if_pos hlf, ih]
        · rw [if_neg hlf, if_neg hlf, ih, List.cons_append]

theorem normalizeNewlines_cons {c : UInt8} (hcr : c ≠ '\r'.toUInt8) (hlf : c ≠ '\n'.toUInt8)
    (afterCr : Bool) (x : Text) :
    normalizeNewlines afterCr (c :: x) = c :: normalizeNewlines false x := by
  rw [normalizeNewlines, if_neg hcr, if_neg fun h => hlf h.1]

theorem normalizeNewlines_of_plain (h : '\r'.toUInt8 ∉ x) : normalizeNewlines false x = x := by
  induction x with
  | nil => rfl
  | cons c x ih =>
      obtain ⟨hc, hx⟩ := not_or.1 (mt List.mem_cons.2 h)
      rw [normalizeNewlines, if_neg (Ne.symm hc), if_neg (by simp), ih hx]

/-- Newlines apart, every byte that is left was there. -/
theorem mem_normalizeNewlines {c : UInt8} {afterCr : Bool} (h : c ∈ normalizeNewlines afterCr x)
    (hlf : c ≠ '\n'.toUInt8) : c ∈ x := by
  induction x generalizing afterCr with
  | nil => exact h
  | cons d x ih =>
      rw [normalizeNewlines] at h
      split at h
      · rcases List.mem_cons.1 h with h | h
        · exact absurd h hlf
        · exact List.mem_cons_of_mem d (ih h)
      split at h
      · exact List.mem_cons_of_mem d (ih h)
      · rcases List.mem_cons.1 h with h | h
        · exact h ▸ List.mem_cons_self
        · exact List.mem_cons_of_mem d (ih h)

theorem quote_notMem_normalizeNewlines (afterCr : Bool) (h : '"'.toUInt8 ∉ x) :
    '"'.toUInt8 ∉ normalizeNewlines afterCr x :=
  fun hmem => h (mem_normalizeNewlines hmem (by decide))

theorem cr_notMem_normalizeNewlines (afterCr : Bool) (x : Text) :
    '\r'.toUInt8 ∉ normalizeNewlines afterCr x := by
  induction x generalizing afterCr with
  | nil => exact List.not_mem_nil
  | cons c x ih =>
      rw [normalizeNewlines]
      split
      · exact mt List.mem_cons.1 (not_or.2 ⟨by decide, ih true⟩)
      · next hcr =>
          split
          · exact ih false
          · exact mt List.mem_cons.1 (not_or.2 ⟨Ne.symm hcr, ih false⟩)

theorem length_normalizeNewlines_le (afterCr : Bool) (x : Text) :
    (normalizeNewlines afterCr x).length ≤ x.length := by
  induction x generalizing afterCr with
  | nil => exact Nat.le_refl _
  | cons c x ih =>
      have hfalse := ih false
      have htrue := ih true
      rw [normalizeNewlines]
      split
      · simpa using htrue
      split
      · exact Nat.le_succ_of_le hfalse
      · simpa using hfalse

theorem count_normalizeNewlines_le {c : UInt8} (hlf : c ≠ '\n'.toUInt8) (afterCr : Bool)
    (x : Text) : (normalizeNewlines afterCr x).count c ≤ x.count c := by
  induction x generalizing afterCr with
  | nil => exact Nat.le_refl _
  | cons d x ih =>
      have hfalse := ih false
      have htrue := ih true
      rw [normalizeNewlines, List.count_cons]
      split
      · rw [List.count_cons_of_ne (Ne.symm hlf)]
        omega
      split
      · omega
      · rw [List.count_cons]
        omega

/-! ## What an attribute value shows -/

theorem zero_notMem_shown (x : Text) : 0 ∉ shown x := by
  rw [shown, List.mem_flatMap]
  rintro ⟨c, -, hc⟩
  unfold visible at hc
  split at hc
  · simp at hc
  · next hne => exact hne (List.mem_singleton.1 hc).symm

theorem shown_of_visible (h : 0 ∉ x) : shown x = x := by
  induction x with
  | nil => rfl
  | cons c x ih =>
      obtain ⟨hc, hx⟩ := not_or.1 (mt List.mem_cons.2 h)
      rw [shown, List.flatMap_cons, visible, if_neg (Ne.symm hc)]
      exact congrArg (c :: ·) (ih hx)

/-- A text that is there again in what its value reads as has no U+0000. -/
theorem readValue_visible {refs : References} {u : Text} (h : readValue refs u = u ++ y) :
    0 ∉ u ∧ refs.decode (normalizeNewlines false u) = u ++ y := by
  have hvisible : 0 ∉ u := by
    have hnone : 0 ∉ readValue refs u := refs.visible_decodeFrom 0 (zero_notMem_shown _)
    intro hmem
    exact hnone (h ▸ List.mem_append_left y hmem)
  have hshown : shown (normalizeNewlines false u) = normalizeNewlines false u :=
    shown_of_visible fun hmem => hvisible (mem_normalizeNewlines hmem (by decide))
  rw [readValue, hshown] at h
  exact ⟨hvisible, h⟩

/-- What is written without the quotation mark never reads as a text that goes on
behind it. -/
theorem readValue_ne_append (refs : References) (u : Text) {y : Text} (hy : y ≠ []) :
    readValue refs u ≠ u ++ y := by
  intro hread
  exact refs.decode_ne_append _ (count_normalizeNewlines_le (by decide) false u)
    (length_normalizeNewlines_le false u) hy (readValue_visible hread).2

/-- The texts that are their own value. -/
theorem readValue_eq_self_iff (refs : References) (x : Text) :
    readValue refs x = x ↔ 0 ∉ x ∧ '\r'.toUInt8 ∉ x ∧ refs.Literal x := by
  constructor
  · intro hread
    obtain ⟨hvisible, hdecode⟩ := readValue_visible (hread.trans (List.append_nil x).symm)
    rw [List.append_nil] at hdecode
    have hcount := count_normalizeNewlines_le (c := '&'.toUInt8) (by decide) false x
    have hlength := length_normalizeNewlines_le false x
    have hle := (refs.decodeFrom_le 0 (normalizeNewlines false x)).1
    have hliteral : refs.Literal (normalizeNewlines false x) := by
      apply refs.literal_of_decode
      · rw [References.decode] at hdecode ⊢
        rw [hdecode] at hle ⊢
        omega
      · rw [hdecode]
        exact hlength
    rw [hliteral.decode] at hdecode
    exact ⟨hvisible, hdecode ▸ cr_notMem_normalizeNewlines false x, hdecode ▸ hliteral⟩
  · rintro ⟨hvisible, hcr, hliteral⟩
    rw [readValue, normalizeNewlines_of_plain hcr, shown_of_visible hvisible, hliteral.decode]

/-- No newline is torn in front of another byte. -/
theorem normalizeNewlines_append_cons (x : Text) {c : UInt8} (hcr : c ≠ '\r'.toUInt8)
    (hlf : c ≠ '\n'.toUInt8) (y : Text) :
    normalizeNewlines false (x ++ c :: y) =
      normalizeNewlines false x ++ normalizeNewlines false (c :: y) := by
  rw [normalizeNewlines_append, normalizeNewlines_cons hcr hlf, normalizeNewlines_cons hcr hlf]

theorem endsInCr_of_plain (h : '\r'.toUInt8 ∉ x) : endsInCr false x = false := by
  induction x with
  | nil => rfl
  | cons c x ih =>
      obtain ⟨hc, hx⟩ := not_or.1 (mt List.mem_cons.2 h)
      rw [endsInCr, beq_false_of_ne (Ne.symm hc), ih hx]

theorem normalizeNewlines_plain_append (h : '\r'.toUInt8 ∉ x) (y : Text) :
    normalizeNewlines false (x ++ y) = x ++ normalizeNewlines false y := by
  rw [normalizeNewlines_append, normalizeNewlines_of_plain h, endsInCr_of_plain h]

/-- Any text in front of a plain one that begins with no newline. -/
theorem normalizeNewlines_before (x : Text) {z : Text} (hcr : '\r'.toUInt8 ∉ z)
    (hfirst : z.head?.all (· != '\n'.toUInt8) = true) (hz : z ≠ []) (y : Text) :
    normalizeNewlines false (x ++ (z ++ y)) =
      normalizeNewlines false x ++ (z ++ normalizeNewlines false y) := by
  obtain ⟨c, z', rfl⟩ := List.exists_cons_of_ne_nil hz
  have hlf : c ≠ '\n'.toUInt8 := by simpa using hfirst
  have hc : c ≠ '\r'.toUInt8 := fun h => hcr (h ▸ List.mem_cons_self)
  rw [List.cons_append, normalizeNewlines_append_cons x hc hlf, ← List.cons_append,
    normalizeNewlines_plain_append hcr]

end SSize.Lib.Markup
