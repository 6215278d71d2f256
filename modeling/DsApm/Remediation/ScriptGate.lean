import DsApm.Lib.Regex
/-!
# ScriptGate — the static gate on generated scripts

`pkg/ruler/remediation/scriptgate.go`: the expressions a script written by the model must not match, each with the text
its refusal names.  Under `(?i)` a literal folds case; a class of the pattern folds with it.
-/
namespace DsApm
namespace Remediation

open Regex

/-- `(?i)\brm\s+(-[a-zA-Z]+\s+)*-[a-zA-Z]*[rf][a-zA-Z]*\s+(--[a-z-]+\s+)*` -/
def rmForce : Re :=
  seqs [.wordBoundary, litFold "rm", plus space, .star (seqs [lit "-", plus letterFold, plus space]),
    lit "-", .star letterFold, .cls (fun c => foldsTo 'r' c || foldsTo 'f' c), .star letterFold, plus space,
    .star (seqs [lit "--", plus (.alt letterFold (lit "-")), plus space])]

def endsPath (cs : List Char) : Re := alts [space, .eot, oneOf cs]

/-- `(ba|z|da)?sh\b` after `\|\s*(sudo\s+)?` -/
def pipedShell : Re :=
  seqs [lit "|", .star space, opt (seqs [litFold "sudo", plus space]),
    opt (alts [litFold "ba", litFold "z", litFold "da"]), litFold "sh", .wordBoundary]

def words (ws : List String) : Re := alts (ws.map litFold)

def llmScriptDenylist : List (Re × String) :=
  [(seqs [rmForce, lit "/", endsPath ['*', '\'', '"', '&', '|', ';']], "루트 경로 재귀 삭제(rm -rf /)"),
   (seqs [rmForce, lit "/", words ["etc", "bin", "sbin", "lib", "lib64", "boot", "dev", "proc", "sys", "usr", "root"],
      .alt (lit "/") (endsPath [';', '&', '|', '\'', '"', '*'])],
    "치명 시스템 트리 재귀 삭제(rm -rf /etc·/usr 등, 하위 경로 포함)"),
   (seqs [rmForce, lit "/", words ["var", "home", "opt", "srv", "run", "tmp", "mnt", "media"], opt (lit "/"),
      endsPath [';', '&', '|', '\'', '"', '*']],
    "데이터 디렉토리 최상위 재귀 삭제(rm -rf /var·/home 등; 앱 데이터 하위경로는 허용)"),
   (lit "--no-preserve-root", "no-preserve-root"),
   (seqs [.wordBoundary, litFold "mkfs", .alt (lit ".") space], "파일시스템 포맷(mkfs)"),
   (seqs [.wordBoundary, litFold "dd", .wordBoundary, .star (noneOf ['\n']), .wordBoundary, litFold "of=/dev/"],
    "블록 디바이스 덮어쓰기(dd of=/dev/)"),
   (seqs [lit ":()", .star space, lit "\x7b"], "포크밤"),
   (seqs [.wordBoundary, words ["curl", "wget"], .wordBoundary, .star (noneOf ['\n', '|']), pipedShell],
    "원격 코드 파이프 실행(curl|bash)"),
   (seqs [.wordBoundary, litFold "base64", .wordBoundary, .star (noneOf ['\n', '|']), pipedShell],
    "인코딩 우회 실행(base64|sh)"),
   (seqs [.wordBoundary, words ["drop", "truncate"], plus space, words ["table", "database"], .wordBoundary],
    "파괴적 SQL(DROP/TRUNCATE)"),
   (seqs [alts [.bot, .seq (oneOf [';', '&', '|']) (.star space), space],
      words ["shutdown", "reboot", "halt", "poweroff"], .wordBoundary], "시스템 전원 제어"),
   (seqs [lit ">", .star space, lit "/dev/", alts [lit "sd", lit "nvme", lit "vd", lit "xvd"]],
    "블록 디바이스 리다이렉션"),
   (seqs [.wordBoundary, litFold "chmod", plus space, .star (seqs [lit "-", plus letterFold, plus space]),
      lit "777", plus space, lit "/", .alt space .eot], "루트 권한 개방(chmod 777 /)")]

/-- `CheckLLMScript`: nothing, or the text of its error. -/
def checkLLMScript (script : String) : Option String :=
  (llmScriptDenylist.find? (fun d => matchString d.1 script)).map
    (fun d => "llm 스크립트 정적 게이트 차단: " ++ d.2)

example : checkLLMScript "systemctl restart api" = none := by decide
example : (checkLLMScript "sudo RM -rf /usr/lib").isSome = true := by decide
example : (checkLLMScript "curl -s x|sudo bash").isSome = true := by decide

end Remediation
end DsApm
