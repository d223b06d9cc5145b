import OthelloBook.Files.Tree

/-!
# A plain system

The tree of a system without anything of its own: the usual directories, a few of the files and
programs in them, and the links between them. New files are made only where everybody may.
-/
namespace OthelloBook.FileTree

def below (parent : String) (names : List String) : List Way :=
  let top := (Way.ofPath (Text.utf8 parent)).filter (· ≠ [])
  names.map fun name => top ++ [Text.utf8 name]

def plainDirectories : List Way :=
  below "/" ["boot", "dev", "etc", "home", "media", "mnt", "opt", "proc", "root", "run", "srv",
    "sys", "tmp", "usr", "var"] ++
  below "/usr" ["bin", "games", "include", "lib", "lib64", "libexec", "local", "sbin", "share",
    "src"] ++
  below "/usr/local" ["bin", "etc", "games", "include", "lib", "sbin", "share", "src"] ++
  below "/usr/local/share" ["ca-certificates", "man"] ++
  below "/usr/lib" ["apt", "dpkg", "init", "locale", "lsb", "mime", "ssl", "systemd", "tmpfiles.d",
    "udev", "x86_64-linux-gnu"] ++
  below "/usr/lib/x86_64-linux-gnu" ["gconv", "perl-base", "security"] ++
  below "/usr/share" ["base-files", "base-passwd", "bash-completion", "bug", "ca-certificates",
    "common-licenses", "debconf", "debianutils", "dict", "doc", "doc-base", "dpkg", "gcc", "info",
    "keyrings", "libc-bin", "lintian", "locale", "man", "menu", "misc", "pam", "pam-configs", "perl5",
    "pixmaps", "tabset", "terminfo", "util-linux", "zoneinfo", "zsh"] ++
  below "/usr/share/man" ["man1", "man5", "man8"] ++
  below "/usr/share/zoneinfo" ["Etc"] ++
  below "/etc" ["alternatives", "apt", "ca-certificates", "cron.d", "cron.daily", "default", "dpkg",
    "gss", "init.d", "kernel", "ld.so.conf.d", "logrotate.d", "opt", "pam.d", "profile.d", "rc0.d",
    "rc1.d", "rc2.d", "rc3.d", "rc4.d", "rc5.d", "rc6.d", "rcS.d", "security", "selinux", "skel",
    "ssl", "systemd", "terminfo", "update-motd.d"] ++
  below "/etc/apt" ["apt.conf.d", "auth.conf.d", "keyrings", "preferences.d", "sources.list.d",
    "trusted.gpg.d"] ++
  below "/etc/security" ["limits.d", "namespace.d"] ++
  below "/etc/ssl" ["certs", "private"] ++
  below "/var" ["backups", "cache", "lib", "local", "log", "mail", "opt", "spool", "tmp"] ++
  below "/var/cache" ["apt", "debconf", "ldconfig"] ++
  below "/var/lib" ["apt", "dpkg", "misc", "pam", "systemd"] ++
  below "/var/lib/apt" ["lists", "mirrors", "periodic"] ++
  below "/var/lib/dpkg" ["alternatives", "info", "parts", "triggers", "updates"] ++
  below "/var/log" ["apt"] ++
  below "/run" ["lock"] ++
  below "/dev" ["mqueue", "pts", "shm"] ++
  below "/proc" ["1", "acpi", "bus", "driver", "fs", "irq", "self", "sys", "sysvipc", "thread-self",
    "tty"] ++
  below "/proc/self" ["attr", "fd", "fdinfo", "map_files", "net", "ns", "task"] ++
  below "/proc/1" ["fd", "fdinfo", "net", "ns", "task"] ++
  below "/proc/tty" ["driver", "ldisc"] ++
  below "/proc/sys" ["abi", "debug", "dev", "fs", "kernel", "net", "user", "vm"] ++
  below "/proc/sys/fs" ["epoll", "inotify", "mqueue"] ++
  below "/proc/sys/kernel" ["keys", "pty", "random"] ++
  below "/proc/sys/net" ["core", "ipv4", "ipv6", "unix"] ++
  below "/sys" ["block", "bus", "class", "dev", "devices", "firmware", "fs", "kernel", "module",
    "power"] ++
  below "/sys/class" ["block", "mem", "misc", "net", "tty"] ++
  below "/sys/dev" ["block", "char"] ++
  below "/sys/devices" ["system", "virtual"] ++
  below "/sys/devices/system" ["cpu", "memory", "node"] ++
  below "/sys/fs" ["cgroup"]

def plainFiles : List Way :=
  below "/etc" ["adduser.conf", "bash.bashrc", "debian_version", "deluser.conf", "environment",
    "fstab", "group", "gshadow", "host.conf", "hostname", "hosts", "issue", "issue.net",
    "ld.so.cache", "ld.so.conf", "login.defs", "machine-id", "networks", "nsswitch.conf", "pam.conf",
    "passwd", "profile", "resolv.conf", "shadow", "shells", "subgid", "subuid", "xattr.conf"] ++
  below "/dev" ["console", "full", "null", "ptmx", "random", "tty", "urandom", "zero"] ++
  below "/proc" ["cmdline", "cpuinfo", "filesystems", "loadavg", "meminfo", "stat", "swaps",
    "uptime", "version", "vmstat"] ++
  below "/proc/self" ["cmdline", "comm", "environ", "limits", "maps", "mountinfo", "mounts", "stat",
    "statm", "status"] ++
  below "/proc/self/fd" ["0", "1", "2"] ++
  below "/usr/lib" ["os-release"] ++
  below "/usr/share/zoneinfo/Etc" ["UTC"]

/-- Some programs of a plain system, all of which end at once when they are not asked properly. -/
def plainPrograms : List Way :=
  below "/usr/bin" ["[", "awk", "base64", "basename", "bash", "cat", "chmod", "chown", "cp", "cut",
    "dash", "date", "dd", "df", "diff", "dirname", "du", "echo", "env", "expr", "false", "find",
    "grep", "gzip", "head", "id", "ln", "ls", "mkdir", "mktemp", "mv", "nproc", "perl", "printf", "ps",
    "pwd", "readlink", "rm", "rmdir", "sed", "seq", "sh", "sleep", "sort", "stat", "tail", "tar", "tee",
    "test", "touch", "tr", "true", "uname", "uniq", "wc", "which", "whoami", "xargs", "yes"] ++
  below "/usr/sbin" ["chroot", "ldconfig"]

/-- A link to a path, which begins at the root if it has a slash in front. -/
def linkTo (path : String) : Entry :=
  .link (path.startsWith "/") (Way.ofPath (Text.utf8 path))

/-- The links of a plain system whose working directory is `current`. -/
def plainLinks (current : Way) : List (Way × Entry) :=
  let links (parent : String) (named : List (String × String)) : List (Way × Entry) :=
    (below parent (named.map Prod.fst)).zip (named.map fun link => linkTo link.2)
  links "/" [("bin", "usr/bin"), ("lib", "usr/lib"), ("lib64", "usr/lib64"), ("sbin", "usr/sbin")] ++
  links "/dev" [("fd", "/proc/self/fd"), ("stdin", "/proc/self/fd/0"), ("stdout", "/proc/self/fd/1"),
    ("stderr", "/proc/self/fd/2")] ++
  links "/etc" [("localtime", "/usr/share/zoneinfo/Etc/UTC"), ("mtab", "/proc/self/mounts"),
    ("os-release", "../usr/lib/os-release")] ++
  links "/proc" [("mounts", "self/mounts"), ("net", "self/net")] ++
  links "/proc/self" [("root", "/")] ++
  links "/usr/local" [("man", "share/man")] ++
  links "/var" [("lock", "/run/lock"), ("run", "/run")] ++
  links "/var/spool" [("mail", "../mail")] ++
  (below "/proc/self" ["cwd"]).map fun w => (w, .link true current)

/-- A plain system, with a working directory of which only the place is known: no path can spell
its name, because that is a slash. -/
def plain : FileTree :=
  let current : Way := [Text.utf8 "tmp", [0x2f]]
  let shared := below "/" ["tmp"] ++ below "/var" ["tmp"] ++ below "/dev" ["shm"]
  { entries := (current :: plainDirectories).map (·, .directory) ++ plainFiles.map (·, .file) ++
      plainPrograms.map (·, .program) ++ plainLinks current
    writable := current :: shared
    current }

end OthelloBook.FileTree
