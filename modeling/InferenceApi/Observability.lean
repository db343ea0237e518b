import InferenceApi.Lib.Json

/-!
# What is logged

`truncate_text` and `sanitize_for_log` of `app/core/observability.py`. What is stored under a
sensitive key never reaches the log, at any depth: values that differ there only are logged
as the same value.
-/

namespace InferenceApi

/-- A value that is logged. The keys of a `dict` are distinct. -/
inductive PyValue
  | none
  | bool (b : Bool)
  | num (n : PyNum)
  | str (s : String)
  | list (items : List PyValue)
  | tuple (items : List PyValue)
  | dict (items : List (String × PyValue))

/-- `DEMO_TEXT_LIMIT`. -/
def demoTextLimit : ℕ := 120

/-- `REDACTED_VALUE`. -/
def redactedValue : String := "***"

/-- `_SENSITIVE_KEYS`. -/
def sensitiveKeys : List String :=
  ["api_key", "authorization", "token", "access_token", "refresh_token"]

/-- `truncate_text`. -/
def truncateText (value : String) (limit : ℕ := demoTextLimit) : String :=
  if value.length ≤ limit then value
  else if limit ≤ 3 then String.ofList (value.toList.take limit)
  else String.ofList (value.toList.take (limit - 3)) ++ "..."

section Sanitize

/-! `lower` is `str.lower`. Nothing is used of it. -/

variable (lower : String → String) (textLimit : ℕ)

/-- `key.lower().replace("-", "_")`. -/
def normalizedKey (key : String) : String :=
  String.ofList ((lower key).toList.map fun c => if c = '-' then '_' else c)

mutual

/-- `sanitize_for_log`. -/
def sanitizeForLog : PyValue → PyValue
  | .str value => .str (truncateText value textLimit)
  | .dict items => .dict (sanitizeDict items)
  | .list items => .list (sanitizeItems items)
  | .tuple items => .tuple (sanitizeItems items)
  | .none => .none
  | .bool b => .bool b
  | .num n => .num n

/-- The loop over a `dict`. Its keys are distinct, so each assignment appends. -/
def sanitizeDict : List (String × PyValue) → List (String × PyValue)
  | [] => []
  | (key, item) :: items =>
    if normalizedKey lower key ∈ sensitiveKeys then
      (key, .str redactedValue) :: sanitizeDict items
    else (key, sanitizeForLog item) :: sanitizeDict items

/-- The comprehension over a `list` or a `tuple`. -/
def sanitizeItems : List PyValue → List PyValue
  | [] => []
  | item :: items => sanitizeForLog item :: sanitizeItems items

end

/-! ## Values that differ in secrets only -/

mutual

/-- The values differ only in what is stored under sensitive keys, at any depth. -/
inductive Alike : PyValue → PyValue → Prop
  | refl (v : PyValue) : Alike v v
  | list {vs ws : List PyValue} : AlikeItems vs ws → Alike (.list vs) (.list ws)
  | tuple {vs ws : List PyValue} : AlikeItems vs ws → Alike (.tuple vs) (.tuple ws)
  | dict {vs ws : List (String × PyValue)} : AlikeDict vs ws → Alike (.dict vs) (.dict ws)

/-- `Alike` item by item. -/
inductive AlikeItems : List PyValue → List PyValue → Prop
  | nil : AlikeItems [] []
  | cons {v w : PyValue} {vs ws : List PyValue} : Alike v w → AlikeItems vs ws →
      AlikeItems (v :: vs) (w :: ws)

/-- `Alike` key by key; what is stored under a sensitive key is arbitrary. -/
inductive AlikeDict : List (String × PyValue) → List (String × PyValue) → Prop
  | nil : AlikeDict [] []
  | secret {key : String} {v w : PyValue} {vs ws : List (String × PyValue)} :
      normalizedKey lower key ∈ sensitiveKeys → AlikeDict vs ws →
      AlikeDict ((key, v) :: vs) ((key, w) :: ws)
  | cons {key : String} {v w : PyValue} {vs ws : List (String × PyValue)} :
      Alike v w → AlikeDict vs ws → AlikeDict ((key, v) :: vs) ((key, w) :: ws)

end

/-! ## What a logged value looks like -/

mutual

/-- `w` is `v` with sensitive entries redacted and strings bounded. -/
inductive Sanitized : PyValue → PyValue → Prop
  | none : Sanitized .none .none
  | bool (b : Bool) : Sanitized (.bool b) (.bool b)
  | num (n : PyNum) : Sanitized (.num n) (.num n)
  | str {s t : String} : t.length ≤ textLimit → (s.length ≤ textLimit → t = s) →
      Sanitized (.str s) (.str t)
  | list {vs ws : List PyValue} : SanitizedItems vs ws → Sanitized (.list vs) (.list ws)
  | tuple {vs ws : List PyValue} : SanitizedItems vs ws → Sanitized (.tuple vs) (.tuple ws)
  | dict {vs ws : List (String × PyValue)} : SanitizedDict vs ws →
      Sanitized (.dict vs) (.dict ws)

/-- As many items, each `Sanitized`. -/
inductive SanitizedItems : List PyValue → List PyValue → Prop
  | nil : SanitizedItems [] []
  | cons {v w : PyValue} {vs ws : List PyValue} : Sanitized v w → SanitizedItems vs ws →
      SanitizedItems (v :: vs) (w :: ws)

/-- The same keys in the same order, each entry redacted or `Sanitized`. -/
inductive SanitizedDict : List (String × PyValue) → List (String × PyValue) → Prop
  | nil : SanitizedDict [] []
  | redacted {key : String} {v : PyValue} {vs ws : List (String × PyValue)} :
      normalizedKey lower key ∈ sensitiveKeys → SanitizedDict vs ws →
      SanitizedDict ((key, v) :: vs) ((key, .str redactedValue) :: ws)
  | cons {key : String} {v w : PyValue} {vs ws : List (String × PyValue)} :
      normalizedKey lower key ∉ sensitiveKeys → Sanitized v w → SanitizedDict vs ws →
      SanitizedDict ((key, v) :: vs) ((key, w) :: ws)

end

end Sanitize

/-! ## Truncation -/

section Truncate

variable {value : String} {limit : ℕ}

lemma truncateText_of_le (h : value.length ≤ limit) : truncateText value limit = value :=
  if_pos h

/-- A text is cut to the limit, ellipsis included. -/
lemma length_truncateText_le (value : String) (limit : ℕ) :
    (truncateText value limit).length ≤ limit := by
  unfold truncateText
  split
  · assumption
  · next hlong =>
    split
    · rw [String.length_ofList, List.length_take]
      omega
    · next hlimit =>
      have hdots : "...".length = 3 := rfl
      rw [String.length_append, String.length_ofList, List.length_take, hdots]
      omega

/-- What has been cut fits. -/
lemma truncateText_truncateText (value : String) (limit : ℕ) :
    truncateText (truncateText value limit) limit = truncateText value limit :=
  truncateText_of_le (length_truncateText_le value limit)

end Truncate

/-! ## The three laws -/

section Laws

variable {lower : String → String} {textLimit : ℕ}

mutual

/-- Secrets do not show. -/
theorem sanitizeForLog_eq_of_alike : ∀ {v w : PyValue}, Alike lower v w →
    sanitizeForLog lower textLimit v = sanitizeForLog lower textLimit w
  | _, _, .refl _ => rfl
  | _, _, .list h => by rw [sanitizeForLog, sanitizeForLog, sanitizeItems_eq_of_alike h]
  | _, _, .tuple h => by rw [sanitizeForLog, sanitizeForLog, sanitizeItems_eq_of_alike h]
  | _, _, .dict h => by rw [sanitizeForLog, sanitizeForLog, sanitizeDict_eq_of_alike h]

theorem sanitizeItems_eq_of_alike : ∀ {vs ws : List PyValue}, AlikeItems lower vs ws →
    sanitizeItems lower textLimit vs = sanitizeItems lower textLimit ws
  | _, _, .nil => rfl
  | _, _, .cons h hs => by
    rw [sanitizeItems, sanitizeItems, sanitizeForLog_eq_of_alike h, sanitizeItems_eq_of_alike hs]

theorem sanitizeDict_eq_of_alike : ∀ {vs ws : List (String × PyValue)}, AlikeDict lower vs ws →
    sanitizeDict lower textLimit vs = sanitizeDict lower textLimit ws
  | _, _, .nil => rfl
  | _, _, .secret hkey hs => by
    rw [sanitizeDict, sanitizeDict, if_pos hkey, if_pos hkey, sanitizeDict_eq_of_alike hs]
  | _, _, .cons h hs => by
    rw [sanitizeDict, sanitizeDict, sanitizeForLog_eq_of_alike h, sanitizeDict_eq_of_alike hs]

end

mutual

/-- Shape and bounds. -/
theorem sanitized_sanitizeForLog : ∀ v : PyValue,
    Sanitized lower textLimit v (sanitizeForLog lower textLimit v)
  | .none => by rw [sanitizeForLog]; exact .none
  | .bool b => by rw [sanitizeForLog]; exact .bool b
  | .num n => by rw [sanitizeForLog]; exact .num n
  | .str s => by
    rw [sanitizeForLog]
    exact .str (length_truncateText_le s textLimit) truncateText_of_le
  | .list items => by rw [sanitizeForLog]; exact .list (sanitized_sanitizeItems items)
  | .tuple items => by rw [sanitizeForLog]; exact .tuple (sanitized_sanitizeItems items)
  | .dict items => by rw [sanitizeForLog]; exact .dict (sanitized_sanitizeDict items)

theorem sanitized_sanitizeItems : ∀ items : List PyValue,
    SanitizedItems lower textLimit items (sanitizeItems lower textLimit items)
  | [] => by rw [sanitizeItems]; exact .nil
  | item :: items => by
    rw [sanitizeItems]
    exact .cons (sanitized_sanitizeForLog item) (sanitized_sanitizeItems items)

theorem sanitized_sanitizeDict : ∀ items : List (String × PyValue),
    SanitizedDict lower textLimit items (sanitizeDict lower textLimit items)
  | [] => by rw [sanitizeDict]; exact .nil
  | (key, item) :: items => by
    rw [sanitizeDict]
    by_cases hkey : normalizedKey lower key ∈ sensitiveKeys
    · rw [if_pos hkey]
      exact .redacted hkey (sanitized_sanitizeDict items)
    · rw [if_neg hkey]
      exact .cons hkey (sanitized_sanitizeForLog item) (sanitized_sanitizeDict items)

end

mutual

/-- A logged value is logged as it is. -/
theorem sanitizeForLog_idem : ∀ v : PyValue,
    sanitizeForLog lower textLimit (sanitizeForLog lower textLimit v) =
      sanitizeForLog lower textLimit v
  | .none => by rw [sanitizeForLog, sanitizeForLog]
  | .bool _ => by rw [sanitizeForLog, sanitizeForLog]
  | .num _ => by rw [sanitizeForLog, sanitizeForLog]
  | .str s => by rw [sanitizeForLog, sanitizeForLog, truncateText_truncateText]
  | .list items => by rw [sanitizeForLog, sanitizeForLog, sanitizeItems_idem items]
  | .tuple items => by rw [sanitizeForLog, sanitizeForLog, sanitizeItems_idem items]
  | .dict items => by rw [sanitizeForLog, sanitizeForLog, sanitizeDict_idem items]

theorem sanitizeItems_idem : ∀ items : List PyValue,
    sanitizeItems lower textLimit (sanitizeItems lower textLimit items) =
      sanitizeItems lower textLimit items
  | [] => by rw [sanitizeItems, sanitizeItems]
  | item :: items => by
    rw [sanitizeItems, sanitizeItems, sanitizeForLog_idem item, sanitizeItems_idem items]

theorem sanitizeDict_idem : ∀ items : List (String × PyValue),
    sanitizeDict lower textLimit (sanitizeDict lower textLimit items) =
      sanitizeDict lower textLimit items
  | [] => by rw [sanitizeDict, sanitizeDict]
  | (key, item) :: items => by
    rw [sanitizeDict]
    by_cases hkey : normalizedKey lower key ∈ sensitiveKeys
    -- the key stays, so its entry is redacted again
    · rw [if_pos hkey, sanitizeDict, if_pos hkey, sanitizeDict_idem items]
    · rw [if_neg hkey, sanitizeDict, if_neg hkey, sanitizeForLog_idem item,
        sanitizeDict_idem items]

end

end Laws

/-- **What sanitizing does.** Values that differ in secrets only are logged as the same value;
the logged value has the shape of the original, its strings are bounded, and those that fit
are the original ones; sanitizing it again changes nothing. -/
theorem sanitize_for_log_laws (lower : String → String) (textLimit : ℕ) :
    (∀ v w : PyValue, Alike lower v w →
      sanitizeForLog lower textLimit v = sanitizeForLog lower textLimit w) ∧
    ∀ v : PyValue, Sanitized lower textLimit v (sanitizeForLog lower textLimit v) ∧
      sanitizeForLog lower textLimit (sanitizeForLog lower textLimit v) =
        sanitizeForLog lower textLimit v :=
  ⟨fun _ _ h => sanitizeForLog_eq_of_alike h,
    fun v => ⟨sanitized_sanitizeForLog v, sanitizeForLog_idem v⟩⟩

/-- A request's configuration with a secret below a list. -/
def configWith (secret : PyValue) : PyValue :=
  .dict [("temperature", .num (.int 1)),
    ("servers", .list [.dict [("url", .str "http://a"), ("Access-Token", secret)]])]

/-- Two secrets, a string and a whole list of them, leave one log. -/
theorem sanitize_for_log_laws_configWith :
    sanitizeForLog String.toLower 12 (configWith (.str "first")) =
      sanitizeForLog String.toLower 12 (configWith (.list [.str "second", .none])) :=
  (sanitize_for_log_laws String.toLower 12).1 _ _
    (.dict (.cons (.refl _) (.cons (.list (.cons (.dict (.cons (.refl _)
      (.secret (by decide +kernel) .nil))) .nil)) .nil)))

end InferenceApi
