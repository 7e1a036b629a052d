import ForgeQueue.Model.Returns

/-!
# Open redirects

A requested return target without `://` is taken as a path of the API's own origin when it
starts with a slash. That misses the network-path references: `//host` has an authority and
no scheme. A target with `://` is judged by its origin in lower case, and Unicode lower-casing
makes ASCII letters of others: the host of `https://adm%C4%B0n.example.com` starts with `adm`
and a dotted capital I and is taken for `admin.example.com`. Every other request ends at the
API itself, at the configured default or at an allowed origin (`return_safe_iff`).
-/

namespace ForgeQueue

open Base

/-- A path on the origin of the API: one slash, followed by neither a slash nor a
backslash. -/
def OwnPath (target : String) : Prop :=
  ∃ rest, target.toList = '/' :: rest ∧ rest.head? ≠ some '/' ∧ rest.head? ≠ some '\\'

/-- The browser goes to an origin of the list. Hosts that differ in the case of ASCII letters
are one host; no other letters are alike. -/
def OnAllowlist (o : OIDC) : Destination → Prop
  | .own => False
  | .other u => u.scheme ≠ "" ∧ ∃ origin ∈ o.allowed, foldAscii u.origin = utf8 origin.toList

section

variable [CaseTable] [UrlLib]

/-- The target is the default, a path on the API's own origin, or a URL of an allowed origin;
the browser, with the one-time code, goes there. -/
def SafeReturn (o : OIDC) (target : String) : Prop :=
  target = o.allowedDefault ∨ (OwnPath target ∧ redirectTo target = .own) ∨
    OnAllowlist o (redirectTo target)

/-- The request is a network-path reference, or would be one with its backslash taken for a
slash. -/
def NetworkPath (raw : String) : Prop :=
  ¬ "://".toList <:+: (trimSpace raw).toList ∧
    ("//".toList <+: (trimSpace raw).toList ∨ "/\\".toList <+: (trimSpace raw).toList)

/-- The origin of the request is on the list in lower case, and lower-casing changed more of it
than ASCII letters: it has others that have a small form, or bytes that are no UTF-8. -/
def FoldedOrigin (o : OIDC) (raw : String) : Prop :=
  "://".toList <:+: (trimSpace raw).toList ∧ originOf raw ∈ o.allowed ∧
    ∃ u, urlParse (trimSpace raw) = some u ∧ foldAscii u.origin ≠ utf8 (originOf raw).toList

/-! ## Targets -/

omit [CaseTable] [UrlLib] in
/-- What starts with a slash has no scheme. -/
theorem getScheme_slash (rest : Text) : getScheme ('/' :: rest) = some ([], '/' :: rest) := by
  have hdrop : ('/' :: rest).dropWhile isSchemeChar = '/' :: rest :=
    List.dropWhile_cons_of_neg (by decide)
  rw [getScheme, hdrop]
  rfl

/-- A reference that starts with a slash is rejected, or has no scheme. -/
theorem urlParse_slash {raw : String} {rest : Text} (h : raw.toList = '/' :: rest) :
    urlParse raw = none ∨
      ∃ host, parseHost ((authorityOf ('/' :: rest)).elim [] hostOf) = some host ∧
        urlParse raw = some ⟨"", host⟩ := by
  unfold urlParse
  split
  · rw [h, getScheme_slash]
    dsimp only
    split
    · exact .inl rfl
    · rename_i host hhost
      exact .inr ⟨host, hhost, rfl⟩
  · exact .inl rfl

/-- So it has no origin. -/
theorem originOf_slash {raw : String} {rest : Text} (h : (trimSpace raw).toList = '/' :: rest) :
    originOf raw = "" := by
  unfold originOf
  rcases urlParse_slash h with hu | ⟨host, -, hu⟩
  · rw [hu]
  · rw [hu]
    exact if_pos (.inl rfl)

/-- A path of the API stays there. -/
theorem redirectTo_ownPath {target : String} (h : OwnPath target) : redirectTo target = .own := by
  obtain ⟨rest, htext, hslash, -⟩ := h
  have hnone : authorityOf ('/' :: rest) = none := by
    unfold authorityOf
    split
    · rename_i heq
      rw [(List.cons.inj heq).2] at hslash
      exact absurd rfl hslash
    · rfl
  unfold redirectTo
  rcases urlParse_slash htext with hu | ⟨host, hhost, hu⟩
  · rw [hu]
  · rw [hnone] at hhost
    obtain rfl := Option.some.inj hhost
    rw [hu]
    exact if_pos ⟨rfl, rfl⟩

/-- A reference without a scheme goes to no listed origin. -/
theorem not_onAllowlist_of_slash {o : OIDC} {target : String} {rest : Text}
    (h : target.toList = '/' :: rest) : ¬ OnAllowlist o (redirectTo target) := by
  unfold redirectTo
  rcases urlParse_slash h with hu | ⟨host, -, hu⟩
  · rw [hu]
    exact id
  · rw [hu]
    dsimp only
    split
    · exact id
    · exact fun hlisted => hlisted.1 rfl

theorem originOf_trimSpace (raw : String) : originOf (trimSpace raw) = originOf raw := by
  rw [originOf, trimSpace_trimSpace]
  rfl

/-- What has an origin has a scheme and a host. -/
theorem originOf_ne {raw : String} (h : originOf raw ≠ "") :
    ∃ u, urlParse (trimSpace raw) = some u ∧ u.scheme ≠ "" ∧
      originOf raw = toLowerBytes u.origin ∧ redirectTo (trimSpace raw) = .other u := by
  unfold originOf at h ⊢
  cases hu : urlParse (trimSpace raw) with
  | none =>
    rw [hu] at h
    exact absurd rfl h
  | some u =>
    rw [hu] at h
    dsimp only at h ⊢
    split at h
    · exact absurd rfl h
    · rename_i hne
      rw [if_neg hne, redirectTo, hu]
      rw [not_or] at hne
      exact ⟨u, rfl, hne.1, rfl, if_neg fun hboth => hne.1 hboth.1⟩

end

/-! ## Lower case -/

section

variable [LawfulCaseTable]

/-- Folding ASCII letters first changes nothing. -/
theorem toLower_toLower_ascii (c : Char) : CaseTable.toLower c.toLower = CaseTable.toLower c := by
  by_cases hc : c.toNat < 128
  · rw [← LawfulCaseTable.toLower_ascii c hc, LawfulCaseTable.toLower_toLower]
  · rw [toLower_of_not_ascii (by show 127 < c.toNat; omega)]

/-- What folds to a text in lower case is lowered to that text. -/
theorem toLowerBytes_of_foldAscii {bytes : Bytes} {cs : Text} (h : foldAscii bytes = utf8 cs)
    (hlow : cs.map CaseTable.toLower = cs) : toLowerBytes bytes = .ofList cs := by
  obtain ⟨ds, rfl, hds⟩ := eq_utf8_of_foldAscii h
  have hmap : ds.map CaseTable.toLower = cs := by
    rw [← hlow, ← hds, List.map_map]
    exact List.map_congr_left fun c _ => (toLower_toLower_ascii c).symm
  rw [toLowerBytes, runes_utf8, hmap]

variable [UrlLib]

/-- An origin is in lower case. -/
theorem originOf_lower {raw : String} (h : originOf raw ≠ "") :
    (originOf raw).toList.map CaseTable.toLower = (originOf raw).toList := by
  obtain ⟨u, -, -, horigin, -⟩ := originOf_ne h
  rw [horigin, toLowerBytes, String.toList_ofList, List.map_map]
  exact List.map_congr_left fun c _ => LawfulCaseTable.toLower_toLower c

/-- Every entry of the allowlist is in lower case. -/
theorem allowed_lower {cfg : ReturnConfig} {o : OIDC} (hnew : newOIDC cfg = .ok o)
    (origins : List String) : ∀ origin ∈ (o.setAllowedOrigins origins).allowed,
      origin.toList.map CaseTable.toLower = origin.toList := by
  have horigins : ∀ raws, ∀ origin ∈ originsOf raws,
      origin.toList.map CaseTable.toLower = origin.toList := by
    intro raws origin h
    obtain ⟨hmap, hne⟩ := List.mem_filter.mp h
    obtain ⟨raw, -, rfl⟩ := List.mem_map.mp hmap
    exact originOf_lower (of_decide_eq_true hne)
  unfold newOIDC at hnew
  split at hnew
  · cases hnew
  · obtain rfl := Except.ok.inj hnew
    intro origin h
    exact (List.mem_append.mp h).elim (horigins _ origin) (horigins origins origin)

/-- If the allowlist is in lower case, a listed destination is listed under its origin. -/
theorem OnAllowlist.origin {o : OIDC} {raw : String}
    (hlow : ∀ origin ∈ o.allowed, origin.toList.map CaseTable.toLower = origin.toList)
    (hne : originOf raw ≠ "") (h : OnAllowlist o (redirectTo (trimSpace raw))) :
    ∃ u, urlParse (trimSpace raw) = some u ∧ foldAscii u.origin = utf8 (originOf raw).toList := by
  obtain ⟨u, hu, -, horigin, hdest⟩ := originOf_ne hne
  rw [hdest] at h
  obtain ⟨-, origin, hmem, hfold⟩ := h
  rw [horigin, toLowerBytes_of_foldAscii hfold (hlow origin hmem), String.toList_ofList]
  exact ⟨u, hu, hfold⟩

end

/-! ## The request -/

section

variable [CaseTable] [UrlLib]

omit [CaseTable] [UrlLib] in
/-- A text that starts with a slash is a path, or the slash is followed by another or by a
backslash. -/
theorem ownPath_iff {target : String} {rest : Text} (h : target.toList = '/' :: rest) :
    OwnPath target ↔ ¬ ("//".toList <+: target.toList ∨ "/\\".toList <+: target.toList) := by
  have hsecond : ∀ c, ['/', c] <+: '/' :: rest ↔ rest.head? = some c := by
    intro c
    cases rest with
    | nil => simp
    | cons d rest => simp [List.cons_prefix_cons, eq_comm]
  rw [h, not_or]
  constructor
  · rintro ⟨rest', htext, hslash, hback⟩
    rw [h] at htext
    obtain rfl := (List.cons.inj htext).2
    exact ⟨fun hp => hslash ((hsecond '/').mp hp), fun hp => hback ((hsecond '\\').mp hp)⟩
  · rintro ⟨hslash, hback⟩
    exact ⟨rest, h, fun hh => hslash ((hsecond '/').mpr hh), fun hh => hback ((hsecond '\\').mpr hh)⟩

/-- What `ResolveReturn` answers: the default, or the trimmed request in one of two cases. -/
theorem resolveReturn_cases (o : OIDC) (raw : String) :
    o.resolveReturn raw = o.allowedDefault ∨
      o.resolveReturn raw = trimSpace raw ∧
        ((¬ "://".toList <:+: (trimSpace raw).toList ∧
            ∃ rest, (trimSpace raw).toList = '/' :: rest) ∨
          "://".toList <:+: (trimSpace raw).toList ∧ originOf raw ∈ o.allowed) := by
  unfold OIDC.resolveReturn
  dsimp only
  split
  · exact .inl rfl
  split
  · rename_i hsep
    split
    · rename_i hslash
      obtain ⟨rest, hrest⟩ := hslash
      exact .inr ⟨rfl, .inl ⟨hsep, rest, hrest.symm⟩⟩
    · exact .inl rfl
  rename_i hsep
  split
  · rename_i hallowed
    rw [originOf_trimSpace] at hallowed
    exact .inr ⟨rfl, .inr ⟨not_not.mp hsep, hallowed⟩⟩
  · exact .inl rfl

/-- A network-path reference is returned as it is. -/
theorem resolveReturn_networkPath {o : OIDC} {raw : String} (h : NetworkPath raw) :
    o.resolveReturn raw = trimSpace raw ∧ ∃ rest, (trimSpace raw).toList = '/' :: rest := by
  obtain ⟨hsep, hprefix⟩ := h
  obtain ⟨rest, hrest⟩ : ∃ rest, (trimSpace raw).toList = '/' :: rest := by
    rcases hprefix with ⟨rest, hrest⟩ | ⟨rest, hrest⟩ <;> exact ⟨_, hrest.symm⟩
  have hempty : trimSpace raw ≠ "" := by
    intro h
    rw [h] at hrest
    cases hrest
  have hslash : "/".toList <+: (trimSpace raw).toList := ⟨rest, hrest.symm⟩
  refine ⟨?_, rest, hrest⟩
  simp only [OIDC.resolveReturn]
  rw [if_neg hempty, if_pos hsep, if_pos hslash]

/-- If it is not the default, it is none of the safe kinds. -/
theorem not_safe_of_networkPath {o : OIDC} {raw : String} (h : NetworkPath raw)
    (hne : trimSpace raw ≠ o.allowedDefault) : ¬ SafeReturn o (o.resolveReturn raw) := by
  obtain ⟨hresolve, rest, hrest⟩ := resolveReturn_networkPath (o := o) h
  rw [hresolve]
  rintro (hdef | ⟨hown, -⟩ | hlisted)
  · exact hne hdef
  · exact (ownPath_iff hrest).mp hown h.2
  · exact not_onAllowlist_of_slash hrest hlisted

/-- A target with a separator is returned when its origin is listed. -/
theorem resolveReturn_origin {o : OIDC} {raw : String}
    (hsep : "://".toList <:+: (trimSpace raw).toList) (h : originOf raw ∈ o.allowed) :
    o.resolveReturn raw = trimSpace raw := by
  have hempty : trimSpace raw ≠ "" := by
    intro hempty
    rw [hempty] at hsep
    exact absurd (List.infix_nil.mp hsep) (by decide)
  simp only [OIDC.resolveReturn]
  rw [if_neg hempty, if_neg (not_not.mpr hsep), originOf_trimSpace, if_pos h]

/-- Everything else is safe. -/
theorem safe_of_not {o : OIDC} {raw : String} (hnet : ¬ NetworkPath raw)
    (hfold : ¬ FoldedOrigin o raw) : SafeReturn o (o.resolveReturn raw) := by
  rcases resolveReturn_cases o raw with heq | ⟨heq, ⟨hsep, rest, hrest⟩ | ⟨hsep, hallowed⟩⟩
  · exact .inl heq
  · rw [heq]
    have hown := (ownPath_iff hrest).mpr fun hprefix => hnet ⟨hsep, hprefix⟩
    exact .inr (.inl ⟨hown, redirectTo_ownPath hown⟩)
  · rw [heq]
    obtain ⟨u, hu, hscheme, -, hdest⟩ := originOf_ne fun h => o.allowed_ne (h ▸ hallowed)
    have hsame : foldAscii u.origin = utf8 (originOf raw).toList := by
      by_contra hne
      exact hfold ⟨hsep, hallowed, u, hu, hne⟩
    rw [SafeReturn, hdest]
    exact .inr (.inr ⟨hscheme, originOf raw, hallowed, hsame⟩)

end

section

variable [LawfulCaseTable] [UrlLib]

/-- An origin that is listed by more than the case of ASCII letters is left for another. -/
theorem not_safe_of_foldedOrigin {o : OIDC} {raw : String}
    (hlow : ∀ origin ∈ o.allowed, origin.toList.map CaseTable.toLower = origin.toList)
    (h : FoldedOrigin o raw) (hne : trimSpace raw ≠ o.allowedDefault) :
    ¬ SafeReturn o (o.resolveReturn raw) := by
  obtain ⟨hsep, hallowed, u, hu, hfold⟩ := h
  have horigin : originOf raw ≠ "" := fun h => o.allowed_ne (h ▸ hallowed)
  rw [resolveReturn_origin hsep hallowed]
  rintro (hdef | ⟨⟨rest, hrest, -⟩, -⟩ | hlisted)
  · exact hne hdef
  · exact horigin (originOf_slash hrest)
  · obtain ⟨u', hu', hsame⟩ := hlisted.origin hlow horigin
    obtain rfl := Option.some.inj (hu.symm.trans hu')
    exact hfold hsame

/-- **Return targets.** For every configuration, every list of allowed origins and every
requested string, the login returns safely if and only if the request is the configured
default itself, or neither a network-path reference nor a URL whose origin is on the list
only through letters beyond ASCII. -/
theorem return_safe_iff {cfg : ReturnConfig} {o : OIDC} (hnew : newOIDC cfg = .ok o)
    (origins : List String) (raw : String) :
    SafeReturn (o.setAllowedOrigins origins) ((o.setAllowedOrigins origins).resolveReturn raw) ↔
      trimSpace raw = (if cfg.webURL = "" then "/" else cfg.webURL) ∨
        (¬ NetworkPath raw ∧ ¬ FoldedOrigin (o.setAllowedOrigins origins) raw) := by
  have hdefault : (o.setAllowedOrigins origins).allowedDefault =
      if cfg.webURL = "" then "/" else cfg.webURL := by
    unfold newOIDC at hnew
    split at hnew
    · cases hnew
    · obtain rfl := Except.ok.inj hnew
      rfl
  rw [← hdefault]
  constructor
  · intro hsafe
    rw [or_iff_not_imp_left]
    intro hne
    exact ⟨fun hnet => not_safe_of_networkPath hnet hne hsafe,
      fun hfold => not_safe_of_foldedOrigin (allowed_lower hnew origins) hfold hne hsafe⟩
  · rintro (hdef | ⟨hnet, hfold⟩)
    · rcases resolveReturn_cases (o.setAllowedOrigins origins) raw with heq | ⟨heq, -⟩
      · exact .inl heq
      · exact .inl (heq.trans hdef)
    · exact safe_of_not hnet hfold

end

/-! ## Two requests -/

def dottedLower (c : Char) : Char := if c = '\u0130' then 'i' else c.toLower

theorem dottedLower_ascii : ∀ n < 128, dottedLower (Char.ofNat n) = (Char.ofNat n).toLower ∧
    dottedLower (Char.ofNat n).toLower = (Char.ofNat n).toLower := by
  decide +kernel

/-- Case folding of the ASCII letters and of the dotted capital I, for the examples. -/
@[reducible] def dottedCase : LawfulCaseTable where
  toLower := dottedLower
  toLower_ascii c hc := by
    have h := (dottedLower_ascii c.toNat hc).1
    rwa [Char.ofNat_toNat] at h
  toLower_toLower c := by
    by_cases hc : c.toNat < 128
    · have h := dottedLower_ascii c.toNat hc
      rw [Char.ofNat_toNat] at h
      rw [h.1, h.2]
    · have hlow : c.toLower = c := toLower_of_not_ascii (by show 127 < c.toNat; omega)
      unfold dottedLower
      split
      · rfl
      · rw [hlow, hlow]
        exact if_neg ‹_›

/-- Every text of the examples is accepted. -/
@[reducible] def acceptAll : UrlLib where
  accepts _ := true

/-- The dotted capital I is lowered to an ASCII letter. -/
example :
    letI := dottedCase
    letI := acceptAll
    originOf "https://adm%C4%B0n.example.com/cb" = "https://admin.example.com" := by
  decide +kernel

/-- The configuration of the example. -/
def consoleConfig : ReturnConfig where
  issuer := "https://idp.example.com"
  clientID := "client"
  redirectURL := "https://console.example.com/api/auth/oidc/callback"
  webURL := "https://console.example.com"

theorem newOIDC_console [CaseTable] [UrlLib] : ∃ o, newOIDC consoleConfig = .ok o ∧
    o.allowedDefault = "https://console.example.com" :=
  ⟨_, if_neg (by decide), rfl⟩

/-- A path of the console is a safe target. -/
theorem return_safe_iff_queues :
    letI := dottedCase
    letI := acceptAll
    ∃ o, newOIDC consoleConfig = .ok o ∧
      (o.setAllowedOrigins ["https://admin.example.com"]).resolveReturn " /queues" = "/queues" ∧
      SafeReturn (o.setAllowedOrigins ["https://admin.example.com"])
        ((o.setAllowedOrigins ["https://admin.example.com"]).resolveReturn " /queues") := by
  let _ := dottedCase
  let _ := acceptAll
  obtain ⟨o, hnew, -⟩ := newOIDC_console
  have hnet : ¬ NetworkPath " /queues" := by
    rintro ⟨-, h⟩
    revert h
    decide +kernel
  have hfold : ¬ FoldedOrigin (o.setAllowedOrigins ["https://admin.example.com"]) " /queues" := by
    rintro ⟨h, -⟩
    revert h
    decide +kernel
  refine ⟨o, hnew, ?_, (return_safe_iff hnew _ _).mpr (.inr ⟨hnet, hfold⟩)⟩
  simp only [OIDC.resolveReturn]
  rw [if_neg (by decide +kernel), if_pos (by decide +kernel), if_pos (by decide +kernel)]
  decide +kernel

/-- **An open redirect.** The request `//evil.example.com` is returned as it is, and the
browser, with the one-time code, is sent to that host. -/
theorem network_path_leaves_origin :
    letI := dottedCase
    letI := acceptAll
    ∃ o, newOIDC consoleConfig = .ok o ∧
      (o.setAllowedOrigins ["https://admin.example.com"]).resolveReturn "//evil.example.com" =
        "//evil.example.com" ∧
      redirectTo "//evil.example.com" = .other ⟨"", utf8 "evil.example.com".toList⟩ ∧
      ¬ SafeReturn (o.setAllowedOrigins ["https://admin.example.com"])
        ((o.setAllowedOrigins ["https://admin.example.com"]).resolveReturn
          "//evil.example.com") := by
  let _ := dottedCase
  let _ := acceptAll
  obtain ⟨o, hnew, hdefault⟩ := newOIDC_console
  have hnet : NetworkPath "//evil.example.com" := by
    refine ⟨by decide +kernel, .inl (by decide +kernel)⟩
  refine ⟨o, hnew, ?_, by decide +kernel, not_safe_of_networkPath hnet ?_⟩
  · simp only [OIDC.resolveReturn]
    rw [if_neg (by decide +kernel), if_pos (by decide +kernel), if_pos (by decide +kernel)]
    decide +kernel
  · show trimSpace "//evil.example.com" ≠ o.allowedDefault
    rw [hdefault]
    decide +kernel

end ForgeQueue
