import Mathlib.Data.String.Defs

/-!
# The commands of the sandbox manager

The strings `build_and_deploy_local` and `teardown` hand to `exec_cmd`. Each is kept as the list of
its pieces, so that it can be said of a piece whether the source or a request has brought it in; the
string itself is the concatenation.

Strings stand for the bytes of a `std::string`, one character each.
-/

namespace BenchmarkPlatform.Sandbox

structure BuildAndDeployRequest where
  submissionId : String
  language : String
  sourceUrl : String
  deriving DecidableEq

/-- A piece of a command: a text of the source, or data of a request. -/
inductive Piece where
  | text (s : String)
  | data (s : String)
  deriving DecidableEq

def Piece.render : Piece → String
  | .text s => s
  | .data s => s

/-- The string handed to `exec_cmd`. -/
def render (cmd : List Piece) : String := String.join (cmd.map Piece.render)

def dockerfileTemplate (language : String) : String :=
  if language = "go" then
    "# Build stage\n" ++
    "FROM golang:1.22-alpine AS builder\n" ++
    "WORKDIR /app\n" ++
    "COPY . .\n" ++
    "RUN go mod download\n" ++
    "RUN CGO_ENABLED=0 GOOS=linux go build -o /exchange .\n\n" ++
    "# Runtime stage\n" ++
    "FROM gcr.io/distroless/static-debian12:nonroot\n" ++
    "COPY --from=builder /exchange /exchange\n" ++
    "EXPOSE 8080\n" ++
    "USER nonroot:nonroot\n" ++
    "ENTRYPOINT [\"/exchange\"]\n"
  else if language = "cpp" then
    "# Build stage\n" ++
    "FROM debian:bookworm AS builder\n" ++
    "RUN apt-get update && apt-get install -y g++ cmake make\n" ++
    "WORKDIR /app\n" ++
    "COPY . .\n" ++
    "RUN if [ -f CMakeLists.txt ]; then \\\n" ++
    "      apt-get update && apt-get install -y cmake && \\\n" ++
    "      mkdir build && cd build && cmake .. && make -j2; \\\n" ++
    "    elif [ -f Makefile ]; then \\\n" ++
    "      make -j2; \\\n" ++
    "    else \\\n" ++
    "      g++ -O2 -std=c++20 -I. -o exchange main.cpp; \\\n" ++
    "    fi\n" ++
    "RUN find . -name 'exchange' -type f | head -1 | xargs -I\x7b\x7d cp \x7b\x7d /exchange || " ++
      "cp build/exchange /exchange 2>/dev/null || true\n\n" ++
    "# Runtime stage\n" ++
    "FROM debian:bookworm-slim\n" ++
    "RUN apt-get update && apt-get install -y --no-install-recommends ca-certificates && " ++
      "rm -rf /var/lib/apt/lists/*\n" ++
    "RUN useradd -m -s /bin/bash contestant\n" ++
    "COPY --from=builder /exchange /exchange\n" ++
    "RUN chmod +x /exchange\n" ++
    "EXPOSE 8080\n" ++
    "USER contestant\n" ++
    "ENTRYPOINT [\"/exchange\"]\n"
  else if language = "rust" then
    "# Build stage\n" ++
    "FROM rust:1.78 AS builder\n" ++
    "WORKDIR /app\n" ++
    "COPY . .\n" ++
    "RUN CARGO_BUILD_JOBS=2 cargo build --release\n" ++
    "RUN cp target/release/$(ls target/release/ | grep -v '\\.d$' | head -1) /exchange " ++
      "2>/dev/null || \\\n" ++
    "    find target/release -maxdepth 1 -type f -executable | head -1 | " ++
      "xargs -I\x7b\x7d cp \x7b\x7d /exchange\n\n" ++
    "# Runtime stage\n" ++
    "FROM debian:bookworm-slim\n" ++
    "RUN apt-get update && apt-get install -y --no-install-recommends ca-certificates && " ++
      "rm -rf /var/lib/apt/lists/*\n" ++
    "RUN useradd -m -s /bin/bash contestant\n" ++
    "COPY --from=builder /exchange /exchange\n" ++
    "RUN chmod +x /exchange\n" ++
    "EXPOSE 8080\n" ++
    "USER contestant\n" ++
    "ENTRYPOINT [\"/exchange\"]\n"
  else ""

/-- `submission_id.substr(0, 8)`. -/
def shortId (submissionId : String) : String := String.ofList (submissionId.toList.take 8)

/-- The commands of `build_and_deploy_local`, in their order. -/
inductive Stage where
  | mkdir
  | download
  | extract
  | dockerfile
  | image
  | network
  | remove
  | run
  | port
  deriving DecidableEq

def BuildAndDeployRequest.command (req : BuildAndDeployRequest) : Stage → List Piece
  | .mkdir => [.text "mkdir -p /tmp/submissions/", .data req.submissionId]
  | .download =>
    [.text "curl -sfL -o /tmp/submissions/", .data req.submissionId, .text "/source.archive \"",
      .data req.sourceUrl, .text "\""]
  | .extract =>
    [.text "tar -C /tmp/submissions/", .data req.submissionId,
      .text " -xzf /tmp/submissions/", .data req.submissionId,
      .text "/source.archive >/dev/null 2>&1 || tar -C /tmp/submissions/", .data req.submissionId,
      .text " -xf /tmp/submissions/", .data req.submissionId,
      .text "/source.archive >/dev/null 2>&1 || unzip -o -d /tmp/submissions/",
      .data req.submissionId, .text " /tmp/submissions/", .data req.submissionId,
      .text "/source.archive >/dev/null 2>&1 || true"]
  | .dockerfile =>
    [.text "cat > /tmp/submissions/", .data req.submissionId,
      .text ("/Dockerfile << 'DOCKERFILE_EOF'\n" ++ dockerfileTemplate req.language ++
        "DOCKERFILE_EOF")]
  | .image =>
    [.text "docker build -t contestant-", .data (shortId req.submissionId),
      .text ":latest --memory=2g --cpu-quota=200000 /tmp/submissions/", .data req.submissionId,
      .text " 2>&1"]
  | .network => [.text "docker network create platform >/dev/null 2>&1 || true"]
  | .remove =>
    [.text "docker rm -f contestant-", .data (shortId req.submissionId), .text " >/dev/null 2>&1"]
  | .run =>
    [.text "docker run -d --name contestant-", .data (shortId req.submissionId),
      .text (" --memory=2g --cpus=2 --read-only --tmpfs /tmp:rw,noexec,nosuid,size=64m " ++
        "--security-opt=no-new-privileges:true --cap-drop=ALL -p 0:8080 --network=platform " ++
        "contestant-"), .data (shortId req.submissionId), .text ":latest 2>&1"]
  | .port => [.text "docker port contestant-", .data (shortId req.submissionId), .text " 8080"]

/-- The command of `teardown`. -/
def teardownCommand (submissionId : String) : List Piece :=
  [.text "docker rm -f contestant-", .data (shortId submissionId)]

end BenchmarkPlatform.Sandbox
