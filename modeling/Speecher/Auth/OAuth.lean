import Speecher.Auth.TokenStore
import Speecher.Bindings.Android
import Speecher.Foundations.FormEncoding
import Speecher.Foundations.Substrings
import Speecher.Foundations.Uri

/-!
# The code of a sign-in

A browser sign-in ends at a link on this device, with a code and the state of the attempt it belongs to. The callback
server hands the link's query to `oauthCallback`; where the browser shows the link instead, the user pastes it, its
query, or the provider's `code#state`, and `pastedCode` takes the text apart by hand.

* `oauthCallback_query`, `pastedCode_query`: the two read the same code from a link, and refuse the same ones.
* `pastedCode_hash`: a `code#state` is read as its code.
* `pasted_code_reads`: no text is read whose state is another attempt's.
-/

namespace Speecher

namespace FormEncoding

variable (e : FormEncoding)

theorem encode_of_isAlphanum {text : List Char} (h : text.all Char.isAlphanum = true) : e.encode text = text := by
  have hchar : ∀ c ∈ text, e.encodeChar c = [c] := fun c hc => if_pos (e.alphanum c (List.all_eq_true.mp h c hc))
  rw [encode, List.flatMap_congr hchar]
  exact List.flatMap_singleton' text

theorem encode_injective {text text' : List Char} (h : e.encode text = e.encode text') : text = text' := by
  have hdecode := e.decodeForm_encode JavaText.ascii.decode_utf8 text
  rw [h, e.decodeForm_encode JavaText.ascii.decode_utf8, Option.some.injEq] at hdecode
  exact hdecode.symm

end FormEncoding

namespace OAuth

open Android

/-- Where a provider's sign-in ends. -/
def oauthRedirect : OAuthProvider → Text
  | .claude => "http://localhost:54545/callback".toList
  | .chatGpt => "http://localhost:1455/auth/callback".toList

def redirectPath : OAuthProvider → Text
  | .claude => "/callback".toList
  | .chatGpt => "/auth/callback".toList

/-- An attempt under way, by the state it was given. -/
structure OAuthAttempt where
  state : Text

/-- OkHttp's links: the path of one, and the first parameter of a name in its query. -/
structure HttpUrl where
  encodedPath : Text → Text
  queryParameter : Text → Text → Option Text
  encodedPath_redirect : ∀ provider, encodedPath (oauthRedirect provider) = redirectPath provider
  queryParameter_query : ∀ (e : FormEncoding) (provider : OAuthProvider) (params : List (Text × Text)) (name : Text),
    params ≠ [] →
      queryParameter ("http://localhost".toList ++ redirectPath provider ++ '?' :: e.query params) name =
        params.lookup name

def oauthCallback (url : HttpUrl) (provider : OAuthProvider) (attempt : OAuthAttempt) (path query : Text) :
    Except String Text :=
  let callback := "http://localhost".toList ++ path ++ '?' :: query
  if path ≠ url.encodedPath (oauthRedirect provider) then .error "Unexpected OAuth callback path"
  else if url.queryParameter callback "state".toList ≠ some attempt.state then .error "OAuth state mismatch"
  else
    ((url.queryParameter callback "code".toList).filter (· ≠ [])).elim (.error "OAuth callback has no code") .ok

/-! ## Pasted text -/

/-- The text without the spaces, and then the quotes, around it. -/
def pastedText (pasted : Text) : Text := stripped (· = '"') (trim pasted)

variable (java : JavaText)

/-- A value decoded, or as it is where it cannot be. -/
def urlDecode (value : Text) : Text := (decodeForm java.decode value).getD value

/-- A parameter with a name. -/
def readParameter (piece : Text) : Option (Text × Text) :=
  if '=' ∉ piece ∨ piece.takeWhile (· ≠ '=') = [] then none
  else some (piece.takeWhile (· ≠ '='), urlDecode java ((piece.dropWhile (· ≠ '=')).drop 1))

def pastedParameters (text : Text) : List (Text × Text) :=
  ((substringAfter '?' text text).splitOn '&').filterMap (readParameter java)

/-- The code among the parameters, up to a state behind it. -/
def parameterCode (text : Text) : Text :=
  (((pastedParameters java text).lookup "code".toList).map (substringBefore '#')).getD []

/-- The state that is looked at: the parameter, or else what follows a `#`. -/
def parameterState (text : Text) : Option Text :=
  (((pastedParameters java text).lookup "state".toList).filter (· ≠ [])).or
    ((some (substringAfter '#' text [])).filter (· ≠ []))

def pastedCode (attempt : OAuthAttempt) (pasted : Text) : Except String Text :=
  let text := pastedText pasted
  if text = [] then .error "Paste the code or the sign-in link from your browser."
  else if "code=".toList <:+: text then
    if parameterCode java text = [] then .error "That link has no sign-in code."
    else if parameterState java text ≠ none ∧ parameterState java text ≠ some attempt.state then
      .error "That link is for a different sign-in."
    else .ok (parameterCode java text)
  else if '#' ∈ text then
    if substringBefore '#' text ≠ [] ∧ substringAfter '#' text text = attempt.state then
      .ok (substringBefore '#' text)
    else .error "That code is for a different sign-in."
  else .ok text

/-! ## Links -/

section Query

variable (e : FormEncoding) {params : List (Text × Text)}

theorem readParameter_pair (p : Text × Text) :
    readParameter java (e.pair p) = if p.1 = [] then none else some (e.encode p.1, p.2) := by
  have heq : '=' ∈ e.pair p := List.mem_append.mpr (.inr List.mem_cons_self)
  have hname : e.encode p.1 = [] ↔ p.1 = [] :=
    ⟨fun h => e.encode_injective (h.trans rfl), fun h => by rw [h]; rfl⟩
  rw [readParameter, e.takeWhile_pair, e.drop_pair, urlDecode, e.decodeForm_encode java.decode_utf8, Option.getD_some]
  by_cases h : p.1 = []
  · rw [if_pos (.inr (hname.mpr h)), if_pos h]
  · rw [if_neg (not_or.mpr ⟨not_not.mpr heq, fun hnil => h (hname.mp hnil)⟩), if_neg h]

/-- No part of a query is another part of a link. -/
theorem not_mem_query {c : Char} (h : isQueryMark c = true) (hc : c ∉ "%+&=".toList) : c ∉ e.query params := by
  intro hmem
  rcases e.mem_query c hmem with hmark | hmem
  · exact absurd (hmark.symm.trans h) Bool.false_ne_true
  · exact hc hmem

theorem lookup_readParameter {key : Text} (hne : key ≠ []) (hkey : key.all Char.isAlphanum = true) :
    ∀ params : List (Text × Text),
      ((params.map e.pair).filterMap (readParameter java)).lookup key = params.lookup key
  | [] => rfl
  | p :: params => by
    rw [List.map_cons, List.filterMap_cons, readParameter_pair]
    by_cases hnil : p.1 = []
    · have hother : (key == p.1) = false := beq_eq_false_iff_ne.mpr fun h => hne (h.trans hnil)
      rw [if_pos hnil, List.lookup_cons, hother]
      exact lookup_readParameter hne hkey params
    · have hsame : (key == e.encode p.1) = (key == p.1) := by
        have hself := e.encode_of_isAlphanum hkey
        rw [Bool.eq_iff_iff, beq_iff_eq, beq_iff_eq]
        exact ⟨fun h => e.encode_injective (hself.trans h), fun h => hself.symm.trans (congrArg e.encode h)⟩
      rw [if_neg hnil, List.lookup_cons, List.lookup_cons, hsame, lookup_readParameter hne hkey params]

/-- **The parameters of a query are read by hand as a link's parser reads them.** -/
theorem lookup_pastedParameters {text key : Text} (hparams : params ≠ [])
    (htext : substringAfter '?' text text = e.query params) (hne : key ≠ []) (hkey : key.all Char.isAlphanum = true) :
    (pastedParameters java text).lookup key = params.lookup key := by
  rw [pastedParameters, htext, e.splitOn_query hparams, lookup_readParameter java e hne hkey]

end Query

/-- A parser that splits a query as a form is split. -/
def HttpUrl.plain : HttpUrl where
  encodedPath link := (link.drop "http://".length).dropWhile (· ≠ '/')
  queryParameter link name :=
    (((substringAfter '?' link []).splitOn '&').map fun piece =>
      (urlDecode .ascii (piece.takeWhile (· ≠ '=')),
        urlDecode .ascii ((piece.dropWhile (· ≠ '=')).drop 1))).lookup name
  encodedPath_redirect provider := by cases provider <;> decide
  queryParameter_query e provider params name h := by
    have hpairs : (params.map e.pair).map (fun piece => (urlDecode .ascii (piece.takeWhile (· ≠ '=')),
        urlDecode .ascii ((piece.dropWhile (· ≠ '=')).drop 1))) = params := by
      rw [List.map_map]
      refine (List.map_congr_left fun p _ => ?_).trans (List.map_id params)
      rw [Function.comp_apply, e.takeWhile_pair, e.drop_pair, urlDecode, urlDecode,
        e.decodeForm_encode JavaText.ascii.decode_utf8, e.decodeForm_encode JavaText.ascii.decode_utf8]
      rfl
    rw [substringAfter_append (by cases provider <;> decide), e.splitOn_query h, hpairs]

/-! ## Around the text -/

/-- A character that is taken off the ends of what was pasted. -/
def isOuter (c : Char) : Bool := isWhitespace c || c = '"'

theorem stripped_around {p : Char → Bool} {before text after : Text} (hbefore : ∀ c ∈ before, p c = true)
    (hafter : ∀ c ∈ after, p c = true) (hne : text ≠ []) (hhead : ∀ c ∈ text.head?, p c = false)
    (hlast : ∀ c ∈ text.getLast?, p c = false) : stripped p (before ++ text ++ after) = text := by
  have hfront : (before ++ text ++ after).dropWhile p = text ++ after := by
    rw [List.append_assoc, List.dropWhile_append_of_pos hbefore]
    obtain ⟨c, rest, rfl⟩ := List.exists_cons_of_ne_nil hne
    rw [List.cons_append, List.dropWhile_cons_of_neg (by simp [hhead c rfl])]
  have hback : (text.reverse).dropWhile p = text.reverse := by
    have hne' : text.reverse ≠ [] := by simpa using hne
    obtain ⟨c, rest, hc⟩ := List.exists_cons_of_ne_nil hne'
    have hlast' := hlast c (by rw [← List.head?_reverse, hc]; rfl)
    rw [hc, List.dropWhile_cons_of_neg (by simp [hlast'])]
  rw [stripped, hfront, List.rdropWhile, List.reverse_append,
    List.dropWhile_append_of_pos fun c hc => hafter c (List.mem_reverse.mp hc), hback, List.reverse_reverse]

/-- Quotes and spaces around a text. -/
structure Wrapping where
  spacesBefore : Text
  quotesBefore : ℕ
  quotesAfter : ℕ
  spacesAfter : Text
  white_before : ∀ c ∈ spacesBefore, isWhitespace c = true
  white_after : ∀ c ∈ spacesAfter, isWhitespace c = true

def Wrapping.around (w : Wrapping) (text : Text) : Text :=
  w.spacesBefore ++ (List.replicate w.quotesBefore '"' ++ text ++ List.replicate w.quotesAfter '"') ++ w.spacesAfter

/-- Nothing around. -/
def Wrapping.bare : Wrapping := ⟨[], 0, 0, [], (fun _ h => nomatch h), (fun _ h => nomatch h)⟩

theorem head?_replicate_append {c d : Char} {n : ℕ} {text : Text} (h : d ∈ (List.replicate n c ++ text).head?) :
    d = c ∨ d ∈ text.head? := by
  cases n with
  | zero => exact .inr h
  | succ n => exact .inl (Option.some.inj h).symm

/-- **Quotes and spaces around a text are taken off.** -/
theorem pastedText_around (w : Wrapping) {text : Text} (hne : text ≠ [])
    (hhead : ∀ c ∈ text.head?, isOuter c = false) (hlast : ∀ c ∈ text.getLast?, isOuter c = false) :
    pastedText (w.around text) = text := by
  have hquote : isWhitespace '"' = false := rfl
  have hwhite : ∀ {c}, isOuter c = false → isWhitespace c = false := fun h => (Bool.or_eq_false_iff.mp h).1
  have hnotQuote : ∀ {c}, isOuter c = false → decide (c = '"') = false := fun h => (Bool.or_eq_false_iff.mp h).2
  have hinner : trim (w.around text) =
      List.replicate w.quotesBefore '"' ++ text ++ List.replicate w.quotesAfter '"' := by
    refine stripped_around w.white_before w.white_after (by simp [hne]) ?_ ?_
    · intro c hc
      rw [List.append_assoc] at hc
      rcases head?_replicate_append hc with rfl | hc
      · exact hquote
      · obtain ⟨d, rest, rfl⟩ := List.exists_cons_of_ne_nil hne
        exact hwhite (hhead c hc)
    · intro c hc
      rw [← List.head?_reverse, List.reverse_append, List.reverse_append, List.reverse_replicate,
        List.reverse_replicate] at hc
      rcases head?_replicate_append hc with rfl | hc
      · exact hquote
      · refine hwhite (hlast c ?_)
        have hne' : text.reverse ≠ [] := by simpa using hne
        obtain ⟨d, rest, hd⟩ := List.exists_cons_of_ne_nil hne'
        rw [← List.head?_reverse, hd]
        rw [hd] at hc
        exact hc
  rw [pastedText, hinner]
  exact stripped_around (fun c hc => decide_eq_true (List.eq_of_mem_replicate hc))
    (fun c hc => decide_eq_true (List.eq_of_mem_replicate hc)) hne (fun c hc => hnotQuote (hhead c hc))
    fun c hc => hnotQuote (hlast c hc)

/-! ## The code of a link -/

section Link

variable (e : FormEncoding) {params : List (Text × Text)}

/-- A link's query, with the link before it or not. -/
def shown (provider : OAuthProvider) (whole : Bool) (query : Text) : Text :=
  if whole then oauthRedirect provider ++ '?' :: query else query

theorem isOuter_of_isQueryMark {c : Char} (h : isQueryMark c = false) : isOuter c = false := by
  simp only [isQueryMark, Bool.or_eq_false_iff, decide_eq_false_iff_not, Nat.not_le, List.contains_eq_mem,
    decide_eq_false_iff_not] at h
  obtain ⟨⟨hmark, hlow⟩, hhigh⟩ := h
  rw [isOuter, Bool.or_eq_false_iff]
  constructor
  · simp only [isWhitespace, Bool.or_eq_false_iff, Bool.and_eq_false_iff, decide_eq_false_iff_not]
    omega
  · rw [decide_eq_false_iff_not]
    rintro rfl
    exact hmark (by decide)

theorem isOuter_of_mem_query : ∀ c ∈ e.query params, isOuter c = false := by
  intro c hc
  rcases e.mem_query c hc with h | h
  · exact isOuter_of_isQueryMark h
  · have hmarks : "%+&=".toList.all (!isOuter ·) = true := rfl
    simpa using List.all_eq_true.mp hmarks c h

theorem pair_mem_query {p : Text × Text} (h : p ∈ params) : e.pair p <:+: e.query params :=
  infix_intercalate (List.mem_map_of_mem h)

theorem mem_of_lookup {key value : Text} : ∀ {params : List (Text × Text)}, params.lookup key = some value →
    (key, value) ∈ params
  | [], h => nomatch h
  | p :: params, h => by
    rw [List.lookup_cons] at h
    cases hkey : key == p.1 with
    | true =>
      rw [hkey, Option.some.injEq] at h
      rw [beq_iff_eq] at hkey
      rw [hkey, ← h]
      exact List.mem_cons_self
    | false =>
      rw [hkey] at h
      exact List.mem_cons_of_mem p (mem_of_lookup h)

theorem code_infix_query {code : Text} (h : params.lookup "code".toList = some code) :
    "code=".toList <:+: e.query params := by
  refine List.IsInfix.trans ?_ (pair_mem_query e (mem_of_lookup h))
  have hname : e.encode "code".toList = "code".toList := e.encode_of_isAlphanum rfl
  rw [FormEncoding.pair, hname]
  exact ⟨[], e.encode code, rfl⟩

theorem substringAfter_shown (provider : OAuthProvider) (whole : Bool) {query : Text} (h : '?' ∉ query) :
    substringAfter '?' (shown provider whole query) (shown provider whole query) = query := by
  cases whole with
  | false => exact if_neg h
  | true => exact substringAfter_append (by cases provider <;> decide) query _

/-- A link and its query start and end with none of what is taken off. -/
theorem pastedText_shown (provider : OAuthProvider) (whole : Bool) (w : Wrapping) (hne : e.query params ≠ []) :
    pastedText (w.around (shown provider whole (e.query params))) = shown provider whole (e.query params) := by
  have hchars : ∀ c ∈ e.query params, isOuter c = false := isOuter_of_mem_query e
  cases whole with
  | false =>
    exact pastedText_around w hne (fun c hc => hchars c (List.mem_of_mem_head? hc))
      fun c hc => hchars c (List.mem_of_mem_getLast? hc)
  | true =>
    have hredirect : (oauthRedirect provider).all (!isOuter ·) = true := by cases provider <;> rfl
    have hall : ∀ c ∈ oauthRedirect provider ++ '?' :: e.query params, isOuter c = false := by
      intro c hc
      rcases List.mem_append.mp hc with hc | hc
      · simpa using List.all_eq_true.mp hredirect c hc
      · rcases List.mem_cons.mp hc with rfl | hc
        · rfl
        · exact hchars c hc
    exact pastedText_around w (by simp [shown]) (fun c hc => hall c (List.mem_of_mem_head? hc))
      fun c hc => hall c (List.mem_of_mem_getLast? hc)

variable {code state : Text}

/-- **A pasted link is read as its code when its state is the attempt's, and refused when it is not.** -/
theorem pastedCode_query (attempt : OAuthAttempt) (provider : OAuthProvider) (whole : Bool) (w : Wrapping)
    (hcode : params.lookup "code".toList = some code) (hhash : '#' ∉ code) (hcodeNe : code ≠ [])
    (hstate : params.lookup "state".toList = some state) (hstateNe : state ≠ []) :
    pastedCode java attempt (w.around (shown provider whole (e.query params))) =
      if state = attempt.state then .ok code else .error "That link is for a different sign-in." := by
  have hparams : params ≠ [] := by
    rintro rfl
    exact absurd hcode (by simp)
  have hinfix := code_infix_query e hcode
  have hqueryNe : e.query params ≠ [] := by
    intro hnil
    rw [hnil, List.infix_nil] at hinfix
    exact absurd hinfix (by decide)
  have hmark : '?' ∉ e.query params := not_mem_query e rfl (by decide)
  have hafter := substringAfter_shown provider whole hmark
  have hread (key : Text) (hne : key ≠ []) (hkey : key.all Char.isAlphanum = true) :=
    lookup_pastedParameters java e hparams hafter hne hkey
  have hshown : "code=".toList <:+: shown provider whole (e.query params) := by
    cases whole with
    | false => exact hinfix
    | true => exact hinfix.trans ((List.suffix_cons _ _).trans (List.suffix_append _ _)).isInfix
  have hshownNe : shown provider whole (e.query params) ≠ [] := by
    intro hnil
    rw [hnil, List.infix_nil] at hshown
    exact absurd hshown (by decide)
  have hcodeRead : parameterCode java (shown provider whole (e.query params)) = code := by
    rw [parameterCode, hread _ (by decide) rfl, hcode, Option.map_some, Option.getD_some,
      substringBefore_eq_self hhash]
  have hstateRead : parameterState java (shown provider whole (e.query params)) = some state := by
    rw [parameterState, hread _ (by decide) rfl, hstate, Option.filter_some,
      if_pos (decide_eq_true hstateNe), Option.some_or]
  rw [pastedCode, pastedText_shown e provider whole w hqueryNe]
  simp only [if_neg hshownNe, if_pos hshown, hcodeRead, hstateRead, if_neg hcodeNe, Option.some.injEq,
    ne_eq, reduceCtorEq, not_false_eq_true, true_and, ite_not]

/-- **The callback server reads the same code, and refuses the same states.** -/
theorem oauthCallback_query (url : HttpUrl) (attempt : OAuthAttempt) (provider : OAuthProvider)
    (hcode : params.lookup "code".toList = some code) (hcodeNe : code ≠ [])
    (hstate : params.lookup "state".toList = some state) :
    oauthCallback url provider attempt (redirectPath provider) (e.query params) =
      if state = attempt.state then .ok code else .error "OAuth state mismatch" := by
  have hparams : params ≠ [] := by
    rintro rfl
    exact absurd hcode (by simp)
  simp only [oauthCallback, url.encodedPath_redirect, url.queryParameter_query e provider params _ hparams, hcode,
    hstate, ne_eq, not_true_eq_false, if_false, Option.some.injEq, ite_not, Option.filter_some,
    decide_not, hcodeNe, decide_false, Bool.not_false, if_true, Option.elim_some]

end Link

/-! ## A code and its state -/

/-- What has no such character in it is on one side of it. -/
theorem infix_of_infix_append_cons {part before after : Text} {c : Char} (hc : c ∉ part)
    (h : part <:+: before ++ c :: after) : part <:+: before ∨ part <:+: after := by
  obtain ⟨front, back, heq⟩ := h
  rcases List.append_eq_append_iff.mp heq with ⟨t, hbefore, -⟩ | ⟨t, hpart, hback⟩
  · exact .inl ⟨front, t, hbefore.symm⟩
  cases t with
  | nil => exact .inl ⟨front, [], by rw [List.append_nil, hpart, List.append_nil]⟩
  | cons d t =>
    obtain ⟨rfl, rfl⟩ := List.cons.inj hback
    rcases List.append_eq_append_iff.mp hpart with ⟨s, -, hs⟩ | ⟨s, -, hs⟩
    · exact absurd (hs ▸ List.mem_append.mpr (.inr List.mem_cons_self)) hc
    · cases s with
      | nil =>
        rw [List.nil_append] at hs
        exact absurd (hs ▸ List.mem_cons_self) hc
      | cons d' s =>
        obtain ⟨-, rfl⟩ := List.cons.inj hs
        exact .inr ⟨s, back, rfl⟩

/-- **A code with its state behind a `#` is read as the code when the state is the attempt's.** -/
theorem pastedCode_hash (attempt : OAuthAttempt) {code state : Text} (hhash : '#' ∉ code) (hcodeNe : code ≠ [])
    (hstateNe : state ≠ []) (hcode : ¬ "code=".toList <:+: code) (hstate : ¬ "code=".toList <:+: state)
    (hhead : ∀ c ∈ code.head?, isOuter c = false) (hlast : ∀ c ∈ state.getLast?, isOuter c = false) :
    pastedCode java attempt (code ++ '#' :: state) =
      if state = attempt.state then .ok code else .error "That code is for a different sign-in." := by
  have htext : pastedText (code ++ '#' :: state) = code ++ '#' :: state := by
    have hbare : Wrapping.bare.around (code ++ '#' :: state) = code ++ '#' :: state := by
      simp [Wrapping.around, Wrapping.bare]
    refine (congrArg pastedText hbare).symm.trans (pastedText_around .bare (by simp) ?_ ?_)
    · obtain ⟨c, rest, rfl⟩ := List.exists_cons_of_ne_nil hcodeNe
      exact hhead
    · intro c hc
      refine hlast c ?_
      rwa [List.getLast?_append_of_ne_nil _ (List.cons_ne_nil _ _), List.getLast?_cons_of_ne_nil hstateNe] at hc
  have hinfix : ¬ "code=".toList <:+: code ++ '#' :: state := fun h =>
    (infix_of_infix_append_cons (by decide) h).elim hcode hstate
  have hmem : '#' ∈ code ++ '#' :: state := List.mem_append.mpr (.inr List.mem_cons_self)
  rw [pastedCode, htext]
  simp only [if_neg hinfix, if_pos hmem, substringBefore_append hhash, substringAfter_append hhash, ne_eq, hcodeNe,
    not_false_eq_true, true_and, List.append_eq_nil_iff, false_and, if_false]

/-! ## Any text -/

/-- **A text that is read carries no other attempt's state where one is looked for.** -/
theorem pastedCode_state (attempt : OAuthAttempt) {pasted code : Text}
    (h : pastedCode java attempt pasted = .ok code) :
    ("code=".toList <:+: pastedText pasted → ∀ s ∈ parameterState java (pastedText pasted), s = attempt.state) ∧
      (¬ "code=".toList <:+: pastedText pasted → '#' ∈ pastedText pasted →
        substringAfter '#' (pastedText pasted) [] = attempt.state) := by
  simp only [pastedCode] at h
  split at h
  · cases h
  constructor
  · intro hinfix s hs
    rw [if_pos hinfix] at h
    split at h
    · cases h
    split at h
    · cases h
    · rename_i hsame
      by_contra hne
      rw [Option.mem_def] at hs
      rw [hs] at hsame
      exact hsame ⟨Option.some_ne_none s, fun heq => hne (Option.some.inj heq)⟩
  · intro hinfix hmem
    rw [if_neg hinfix, if_pos hmem] at h
    split at h
    · rename_i hread
      have hafter := hread.2
      rw [substringAfter, if_pos hmem] at hafter ⊢
      exact hafter
    · cases h

/-- **A sign-in's link is read alike from the callback and from what was pasted, in quotes or spaces or not, and only
with the attempt's state; so is a code with a state behind it. What is read carries no other state where one is looked
for: the parameter, or else behind a `#`.** -/
theorem sign_in_read (url : HttpUrl) (attempt : OAuthAttempt) :
    (∀ (e : FormEncoding) (provider : OAuthProvider) (params : List (Text × Text)) (code state : Text),
      params.lookup "code".toList = some code → '#' ∉ code → code ≠ [] →
      params.lookup "state".toList = some state → state ≠ [] →
      oauthCallback url provider attempt (redirectPath provider) (e.query params) =
          (if state = attempt.state then .ok code else .error "OAuth state mismatch") ∧
        ∀ (whole : Bool) (w : Wrapping),
          pastedCode java attempt (w.around (shown provider whole (e.query params))) =
            if state = attempt.state then .ok code else .error "That link is for a different sign-in.") ∧
    (∀ code state : Text, '#' ∉ code → code ≠ [] → state ≠ [] →
      ¬ "code=".toList <:+: code → ¬ "code=".toList <:+: state →
      (∀ c ∈ code.head?, isOuter c = false) → (∀ c ∈ state.getLast?, isOuter c = false) →
      pastedCode java attempt (code ++ '#' :: state) =
        if state = attempt.state then .ok code else .error "That code is for a different sign-in.") ∧
    ∀ pasted code : Text, pastedCode java attempt pasted = .ok code →
      ("code=".toList <:+: pastedText pasted → ∀ s ∈ parameterState java (pastedText pasted), s = attempt.state) ∧
      (¬ "code=".toList <:+: pastedText pasted → '#' ∈ pastedText pasted →
        substringAfter '#' (pastedText pasted) [] = attempt.state) := by
  refine ⟨?_, ?_, ?_⟩
  · intro e provider params code state hcode hhash hcodeNe hstate hstateNe
    exact ⟨oauthCallback_query e url attempt provider hcode hcodeNe hstate, fun whole w =>
      pastedCode_query java e attempt provider whole w hcode hhash hcodeNe hstate hstateNe⟩
  · intro code state hhash hcodeNe hstateNe hcode hstate hhead hlast
    exact pastedCode_hash java attempt hhash hcodeNe hstateNe hcode hstate hhead hlast
  · intro pasted code h
    exact pastedCode_state java attempt h

/-- Quotes and spaces at the text's ends are no part of a code or a state, and `code=` makes the text a query. A state
that is written into the code is not looked at. -/
theorem ends_taken_off :
    pastedCode .ascii ⟨"s".toList⟩ "\"c#s".toList = .ok "c".toList ∧
      pastedCode .ascii ⟨"s ".toList⟩ "c#s ".toList = .error "That code is for a different sign-in." ∧
      pastedCode .ascii ⟨"code=s".toList⟩ "c#code=s".toList = .error "That link has no sign-in code." ∧
      pastedCode .ascii ⟨"good".toList⟩ "code=abc%23evil".toList = .ok "abc".toList := by
  refine ⟨by decide, by decide, by decide, by decide⟩

end OAuth

end Speecher
